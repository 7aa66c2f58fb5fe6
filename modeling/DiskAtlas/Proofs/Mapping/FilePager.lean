/-
Asking a pager for one record after the other gives what the walk over the
file gives (`tells_items`), whatever the source answers: a request only
moves items from the walk to come into the records that have come
(`items_fetch`), and handing one out takes the first of them
(`next_items`). The first request can be made early without changing the
sequence, unless it fails, and then the failure was all there is to tell
(`items_prime`).

For a file whose records lie in order and a source that tells the truth
about them, the sequence is therefore the records of the file or of the
stretch asked for, and it depends neither on the room in a request nor on
when the first one is made (`pager_complete`).
-/
import DiskAtlas.Proofs.Mapping.FileWalk
import DiskAtlas.Mapping.FilePager

namespace DiskAtlas.Mapping

open RawExtent

variable {σ : Type} {source : FileSource σ}

namespace FilePager

-- ============================================================= sequence

/-- The answers of a pager that is asked until it has none. -/
inductive Tells (source : FileSource σ) :
    FilePager σ → List (Except Error RawExtent) → Prop where
  | ended {p p' : FilePager σ} (h : p.next source = (none, p')) :
      Tells source p []
  | more {p p' : FilePager σ} {item : Except Error RawExtent}
      {items : List (Except Error RawExtent)}
      (h : p.next source = (some item, p')) (rest : Tells source p' items) :
      Tells source p (item :: items)

/-- A pager answers one sequence only. -/
theorem Tells.unique {p : FilePager σ}
    {items items' : List (Except Error RawExtent)} (h : Tells source p items)
    (h' : Tells source p items') : items = items' := by
  induction h generalizing items' with
  | ended hnext =>
    cases h' with
    | ended _ => rfl
    | more hnext' _ => cases hnext.symm.trans hnext'
  | more hnext _ ih =>
    cases h' with
    | ended hnext' => cases hnext.symm.trans hnext'
    | more hnext' rest =>
      cases hnext.symm.trans hnext'
      rw [ih rest]

/-- What a pager has still to tell: the records that have come, and what a
walk from its next request on gives. -/
def items (source : FileSource σ) (p : FilePager σ) :
    List (Except Error RawExtent) :=
  p.pending.map .ok ++
    if p.done then []
    else (walkFile source p.capacity p.flags p.start p.stop p.state).1.items

section

variable (source)

-- ============================================================== requests

theorem page_ne_nil {start next : UInt64} {page : List RawExtent}
    (h : nextStart start page = some next) : page ≠ [] := by
  rintro rfl
  cases h

/-- A request that is answered changes nothing of what is to be told, and
one that fails is the last thing told. -/
theorem items_fetch (p : FilePager σ) (hopen : p.done = false) :
    match p.fetch source with
    | (.ok (), p') => p'.items source = p.items source ∧
        (p'.pending = [] → p'.done = true)
    | (.error e, p') => p.items source = p.pending.map .ok ++ [.error e] ∧
        p'.pending = p.pending ∧ p'.done = true := by
  unfold fetch
  by_cases hlt : p.start < p.stop
  swap
  · simp only [if_neg hlt, items, hopen, walkFile_of_le _ _ _ hlt]
    exact ⟨rfl, fun _ => trivial⟩
  simp only [if_pos hlt]
  rcases hanswer : source.answer (FileBuffer.prepare p.capacity
    ⟨p.start, p.stop - p.start, p.flags⟩) p.state with ⟨_ | buffer, s⟩
  · simp only [items, hopen]
    exact ⟨congrArg _ (items_walkFile_error _ _ _ hlt hanswer), trivial,
      trivial⟩
  · have hwalk := items_walkFile_ok _ _ _ hlt hanswer
    cases hnext : nextStart p.start
      (cutAfter (·.isLast) buffer.answered) with
    | none =>
      simp only [items, hopen, hwalk, hnext, List.map_append, List.map_map,
        List.append_assoc]
      exact ⟨rfl, fun _ => trivial⟩
    | some next =>
      simp only [items, hopen, hwalk, hnext, List.map_append, List.map_map,
        List.append_assoc, List.append_eq_nil_iff, List.map_eq_nil_iff]
      exact ⟨rfl, fun hnil => absurd hnil.2 (page_ne_nil hnext)⟩

-- =============================================================== records

/-- Taking the next item of a pager takes the head of what it will still hand
out, provided it holds something or is done. -/
theorem pop_items (p : FilePager σ) (h : p.pending = [] → p.done = true) :
    p.pop.1 = (p.items source).head? ∧
      p.pop.2.items source = (p.items source).tail := by
  unfold pop
  split
  · next hnil =>
    rw [items, hnil, h hnil]
    exact ⟨rfl, rfl⟩
  · next e rest hcons =>
    simp only [items, hcons]
    exact ⟨rfl, rfl⟩

/-- The next answer is the first thing to tell, and the others remain. -/
theorem next_items (p : FilePager σ) :
    (p.next source).1 = (p.items source).head? ∧
      (p.next source).2.items source = (p.items source).tail := by
  unfold next
  split
  · next hask =>
    obtain ⟨hpending, hopen⟩ := Bool.and_eq_true_iff.1 hask
    have hpending := List.isEmpty_iff.1 hpending
    have hfetch := items_fetch source p
      (Bool.not_eq_true' _ ▸ hopen)
    split <;> rename_i hanswer <;> rw [hanswer] at hfetch
    · obtain ⟨htold, hnone, hdone⟩ := hfetch
      rw [htold, items, hnone, hdone, hpending]
      exact ⟨rfl, rfl⟩
    · rw [← hfetch.1]
      exact pop_items _ _ hfetch.2
  · next hkeep =>
    refine pop_items _ p fun hnil => ?_
    simpa [hnil] using hkeep

/-- Whatever the source answers, the pager tells what is still to tell. -/
theorem tells_items (p : FilePager σ) : Tells source p (p.items source) := by
  obtain ⟨n, hn⟩ : ∃ items, items = p.items source := ⟨_, rfl⟩
  rw [← hn]
  induction n generalizing p with
  | nil =>
    have hnext := (next_items source p).1
    rw [← hn] at hnext
    exact .ended (Prod.ext hnext rfl)
  | cons item rest ih =>
    obtain ⟨hnext, hrest⟩ := next_items source p
    rw [← hn] at hnext hrest
    exact .more (Prod.ext hnext rfl) (ih _ hrest.symm)

/-- An early first request that succeeds changes nothing of what is told;
one that fails told everything. -/
theorem items_prime (p : FilePager σ) :
    match p.prime source with
    | (.ok (), p') => p'.items source = p.items source
    | (.error e, p') => p.items source = p.pending.map .ok ++ [.error e] ∧
        p'.items source = p.pending.map .ok := by
  unfold prime
  by_cases hfresh : p.fetched || p.done
  · simp only [hfresh, if_true]
  · have hopen : p.done = false := by
      simp only [Bool.or_eq_true, not_or, Bool.not_eq_true] at hfresh
      exact hfresh.2
    have hfetch := items_fetch source p hopen
    rw [if_neg hfresh]
    split <;> rename_i hanswer <;> rw [hanswer] at hfetch
    · exact hfetch.1
    · obtain ⟨htold, hpending, hdone⟩ := hfetch
      refine ⟨htold, ?_⟩
      rw [items, hpending, hdone]
      exact List.append_nil _

end

/-- Does a pager hand out these records and nothing else, and does it
still do so when the first request is made early? -/
structure Delivers (source : FileSource σ) (p : FilePager σ)
    (records : List RawExtent) : Prop where
  tells : Tells source p (records.map .ok)
  primes : (p.prime source).1 = .ok ()
  tells_primed : Tells source (p.prime source).2 (records.map .ok)

/-- A pager whose items are all records hands them out one after the other and
then nothing, so it delivers them. -/
theorem delivers_of_items {p : FilePager σ} {records : List RawExtent}
    (h : p.items source = records.map .ok) : Delivers source p records := by
  have hprime := items_prime source p
  rcases hanswer : p.prime source with ⟨_ | _, p'⟩ <;>
    rw [hanswer] at hprime
  · -- a failure would be one of the items
    have hmem : Except.error _ ∈ records.map .ok :=
      h ▸ hprime.1 ▸ List.mem_append_right _ (List.mem_singleton_self _)
    obtain ⟨_, _, hne⟩ := List.mem_map.1 hmem
    cases hne
  · refine ⟨h ▸ tells_items _ p, by rw [hanswer], ?_⟩
    rw [hanswer, ← h, ← hprime]
    exact tells_items _ p'

end FilePager

-- ========================================================== whole files

open FilePager

/-- A pager over a stretch of a file hands out the records that meet it. -/
theorem FileReader.delivers_pager {records : List RawExtent}
    (h : IsLayout records) (hserves : Serves source records)
    (r : FileReader) (hbatch : r.batch < UInt32.size) (s : σ) :
    Delivers source (r.pager s)
      ((records.filter (Meets r.start.toNat r.stop.toNat)).map
        (·.clearLast)) := by
  apply delivers_of_items
  rw [List.map_map]
  refine h.items_walkFile hserves ?_ ?_ r.flags r.stop r.start s
  · exact Nat.lt_of_lt_of_le Nat.one_pos (Nat.le_max_right ..)
  · exact Nat.max_lt.2 ⟨hbatch, by decide⟩

/-- Every record of a layout lies before the largest offset. -/
theorem IsLayout.meets_maxWord {records : List RawExtent}
    (h : IsLayout records) {e : RawExtent} (he : e ∈ records) :
    e.Meets 0 maxWord.toNat := by
  have hpos := h.length_pos he
  have hfits := h.fits e he
  exact meets_iff.2 (by omega)

/-- A stretch that would leave the offsets is cut at the largest one, which
no record reaches. -/
theorem IsLayout.meets_satAdd {records : List RawExtent}
    (h : IsLayout records) (start length : UInt64) {e : RawExtent}
    (he : e ∈ records) :
    e.Meets start.toNat (satAdd start length).toNat ↔
      e.Meets start.toNat (start.toNat + length.toNat) := by
  have hfits := h.fits e he
  rw [meets_iff, meets_iff, toNat_satAdd]
  omega

/-- A pager over a whole file hands out its records in order, each once and
with only the mark of the last one taken away; over a stretch it hands out
those that have a byte of the stretch. Neither the room in a request nor an
early first request matters. -/
theorem pager_complete {records : List RawExtent} (h : IsLayout records)
    (hserves : Serves source records) (batch flags : UInt32) (s : σ) :
    let reader : FileReader := { batch := batch.toNat, flags }
    Delivers source (reader.pager s) (records.map (·.clearLast)) ∧
    (∀ start length : UInt64,
      Delivers source ((reader.onRange start length).pager s)
        ((records.filter (Meets start.toNat
          (start.toNat + length.toNat))).map (·.clearLast))) ∧
    ∀ start : UInt64,
      Delivers source ((reader.onRange start 0).pager s) [] := by
  intro reader
  have hbatch : reader.batch < UInt32.size := batch.toNat_lt
  have hrange : ∀ start length : UInt64,
      Delivers source ((reader.onRange start length).pager s)
        ((records.filter (Meets start.toNat
          (start.toNat + length.toNat))).map (·.clearLast)) := by
    intro start length
    -- no record reaches past the largest offset, where the sum is cut off
    have hmeets : records.filter
        (Meets start.toNat (start.toNat + length.toNat)) =
          records.filter (Meets start.toNat (satAdd start length).toNat) :=
      List.filter_congr fun e he =>
        decide_eq_decide.2 (h.meets_satAdd start length he).symm
    rw [hmeets]
    exact FileReader.delivers_pager h hserves
      (reader.onRange start length) hbatch s
  refine ⟨?_, hrange, fun start => ?_⟩
  · have hall : records.filter (Meets 0 maxWord.toNat) = records :=
      List.filter_eq_self.2 fun e he =>
        decide_eq_true (h.meets_maxWord he)
    have hwhole := FileReader.delivers_pager h hserves reader hbatch s
    rw [← hall]
    exact hwhole
  · have hnone : records.filter
        (Meets start.toNat (start.toNat + (0 : UInt64).toNat)) = [] := by
      refine List.filter_eq_nil_iff.2 fun e _ hmeet => ?_
      have hmeet := meets_iff.1 (of_decide_eq_true hmeet)
      rw [UInt64.toNat_zero] at hmeet
      omega
    have hempty := hrange start 0
    rw [hnone] at hempty
    exact hempty

-- ======================================================== a served file

/-- A file that looks its records up for every request. -/
def laidOut (records : List RawExtent) : FileSource Unit where
  answer {capacity} b s :=
    let page := (records.filter (Meets b.request.start.toNat
      (b.request.start.toNat + b.request.length.toNat))).take capacity
    (.ok ((b.fill 0 page).setClaimed (UInt32.ofNat page.length)), s)

theorem serves_laidOut (records : List RawExtent) :
    Serves (laidOut records) records := by
  intro capacity b s hcount
  have hroom := List.length_take_le capacity
    (records.filter (Meets b.request.start.toNat
      (b.request.start.toNat + b.request.length.toNat)))
  exact ⟨_, s, rfl,
    FileBuffer.answered_fill b hroom (Nat.lt_of_le_of_lt hroom hcount)⟩

/-- Two records side by side and, behind a hole, a third one with the
mark. -/
def threeRecords : List RawExtent := [
  ⟨0, 4096, 10, Flags.empty⟩, ⟨10, 8192, 5, Flags.unwritten⟩,
  ⟨40, 16384, 20, Flags.last.union Flags.shared⟩]

theorem isLayout_threeRecords : IsLayout threeRecords where
  sorted := by decide
  disjoint := by
    have hapart : threeRecords.Pairwise fun a b =>
        a.logical.toNat + a.length.toNat ≤ b.logical.toNat := by decide
    refine hapart.imp fun hle offset => ?_
    rintro ⟨⟨_, hbefore⟩, hbehind, _⟩
    omega
  nonempty := by decide
  fits := by decide
  unmarked := by decide

theorem pager_complete_threeRecords :
    IsLayout threeRecords ∧ Serves (laidOut threeRecords) threeRecords ∧
    Delivers (laidOut threeRecords)
      ((({ batch := 0 } : FileReader).onRange 12 40).pager ())
      [⟨10, 8192, 5, Flags.unwritten⟩, ⟨40, 16384, 20, Flags.shared⟩] :=
  ⟨isLayout_threeRecords, serves_laidOut _,
    (pager_complete isLayout_threeRecords (serves_laidOut _) 0 0 ()).2.1
      12 40⟩

end DiskAtlas.Mapping

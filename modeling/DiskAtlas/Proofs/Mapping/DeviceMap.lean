/-
Reading the whole map of a device. The records of a map differ from each
other, none of them is empty and only the final one may be marked as the
last (`IsDeviceMap`). A source that tells the truth answers a request with
as many records as there is room for, from those that stand behind its low
key (`ServesMap`).

Whatever the room in a request is, the pager then hands out the records of
the map in order, each once and with every bit (`map_complete`). The reason
is that nothing but the low key says where to go on, and it names a place
of the map: what stands behind the final record of a page is what the page
has left (`recordsBehind_tail`).
-/
import Mathlib.Data.List.Infix
import DiskAtlas.Proofs.Mapping.DevicePager
import DiskAtlas.Proofs.Mapping.DeviceWalk

namespace DiskAtlas.Mapping

-- ================================================================= maps

/-- The records of a device. -/
structure IsDeviceMap (records : List DeviceRecord) : Prop where
  nodup : records.Nodup
  nonempty : ∀ r ∈ records, 1 ≤ r.length
  unmarked : records.Pairwise fun a _ => a.isLast = false

/-- The records behind a low key: all behind the lowest one, and behind
the key of a record those that follow it. -/
def recordsBehind (records : List DeviceRecord) (key : DeviceRecord) :
    List DeviceRecord :=
  if key = .lowest then records
  else (records.dropWhile (· != key)).tail

theorem recordsBehind_lowest (records : List DeviceRecord) :
    recordsBehind records .lowest = records :=
  if_pos rfl

theorem recordsBehind_suffix (records : List DeviceRecord)
    (key : DeviceRecord) : recordsBehind records key <:+ records := by
  unfold recordsBehind
  split
  · exact List.suffix_rfl
  · exact (List.tail_suffix _).trans (List.dropWhile_suffix _)

namespace IsDeviceMap

variable {records : List DeviceRecord}

/-- The lowest key is that of no record. -/
theorem ne_lowest (h : IsDeviceMap records) {r : DeviceRecord}
    (hr : r ∈ records) : r ≠ .lowest := by
  rintro rfl
  exact absurd (h.nonempty _ hr) (by decide)

/-- Behind a record of the map are the records after it. A map has no record
twice, so the record is found where it is. -/
theorem recordsBehind_append (h : IsDeviceMap records)
    {before rest : List DeviceRecord} {key : DeviceRecord}
    (hsplit : records = before ++ key :: rest) :
    recordsBehind records key = rest := by
  subst hsplit
  have hkey : key ≠ .lowest := h.ne_lowest (by simp)
  have hbefore : ∀ r ∈ before, (r != key) = true := by
    intro r hr
    rw [bne_iff_ne]
    exact (List.nodup_append.1 h.nodup).2.2 r hr key List.mem_cons_self
  rw [recordsBehind, if_neg hkey, List.dropWhile_append_of_pos hbefore]
  simp

/-- What stands behind the final record of a page is what the page has
left. -/
theorem recordsBehind_tail (h : IsDeviceMap records)
    {page rest : List DeviceRecord} {key tail : DeviceRecord}
    (hpage : recordsBehind records key = page ++ rest)
    (htail : page.getLast? = some tail) :
    recordsBehind records tail = rest := by
  obtain ⟨before, hbefore⟩ := recordsBehind_suffix records key
  obtain ⟨page, rfl⟩ := List.getLast?_eq_some_iff.1 htail
  have hsplit : records = (before ++ page) ++ tail :: rest := by
    rw [← hbefore, hpage]
    simp
  exact h.recordsBehind_append hsplit

/-- Nothing stands behind a record that is marked as the last. -/
theorem recordsBehind_of_isLast (h : IsDeviceMap records)
    {r : DeviceRecord} (hr : r ∈ records) (hlast : r.isLast = true) :
    recordsBehind records r = [] := by
  obtain ⟨before, rest, hsplit⟩ := List.append_of_mem hr
  rw [h.recordsBehind_append hsplit]
  cases rest with
  | nil => rfl
  | cons next rest =>
    have hunmarked := h.unmarked
    rw [hsplit, List.pairwise_append, List.pairwise_cons] at hunmarked
    have hnot := hunmarked.2.1.1 next List.mem_cons_self
    exact absurd hlast (by simp [hnot])

/-- A page of the map ends before no mark. -/
theorem cutAfter_page (h : IsDeviceMap records)
    {page : List DeviceRecord} (hpage : page <:+: records) :
    cutAfter (·.isLast) page = page := by
  have hunmarked := h.unmarked.sublist hpage.sublist
  clear hpage
  induction page with
  | nil => rfl
  | cons r rest ih =>
    obtain ⟨hfirst, hrest⟩ := List.pairwise_cons.1 hunmarked
    unfold cutAfter
    split
    · next hlast =>
      cases rest with
      | nil => rfl
      | cons next rest =>
        exact absurd hlast (by simp [hfirst next List.mem_cons_self])
    · rw [ih hrest]

end IsDeviceMap

/-- Does a source answer each request with the first records behind its
low key, as many as there is room for? -/
def ServesMap {σ : Type} (source : DeviceSource σ)
    (records : List DeviceRecord) : Prop :=
  ∀ {capacity : Nat} (b : DeviceBuffer capacity) (s : σ),
    capacity < UInt32.size →
    (b.lowKey = .lowest ∨ b.lowKey ∈ records) →
    ∃ b' s', source.answer b s = (.ok b', s') ∧
      b'.answered = (recordsBehind records b.lowKey).take capacity

-- ============================================================ requests

namespace DevicePager

variable {σ : Type} {source : DeviceSource σ} {p q : DevicePager σ}

/-- A request for the first record changes nothing of what is told. -/
theorem next_fetch (hpending : p.pending = []) (hopen : p.done = false)
    (hfetch : p.fetch source = (.ok (), q))
    (hend : q.pending = [] → q.done = true) :
    p.next source = q.next source := by
  have hkeep : (q.pending.isEmpty && !q.done) = false := by
    cases hq : q.pending with
    | nil => simp [hend hq]
    | cons => simp
  simp [next, hpending, hopen, hfetch, hkeep]

theorem drained_done (hpending : p.pending = []) (hdone : p.done = true) :
    Drained (·.next source) p [] p :=
  .ended (by simp [next, pop, hpending, hdone])

/-- The records that have come are handed out before anything else. -/
theorem drained_pending {items : List (Except Error DeviceRecord)} :
    ∀ (pending : List DeviceRecord),
      Drained (·.next source) { p with pending := [] } items q →
      Drained (·.next source) { p with pending } (pending.map .ok ++ items)
        q := by
  intro pending hdrained
  induction pending with
  | nil => exact hdrained
  | cons r rest ih => exact .more rfl ih

/-- A request brings its page, and what comes behind it remains. -/
theorem drained_fetch {p' : DevicePager σ}
    {items : List (Except Error DeviceRecord)} (hpending : p.pending = [])
    (hopen : p.done = false) (hfetch : p.fetch source = (.ok (), p'))
    (hbehind : Drained (·.next source) { p' with pending := [] } items q) :
    Drained (·.next source) p (p'.pending.map .ok ++ items) q := by
  have hnext := next_fetch hpending hopen hfetch
    (done_of_fetch hpending hfetch)
  exact (drained_pending p'.pending hbehind).congr hnext

section Served

variable {records : List DeviceRecord} (h : IsDeviceMap records)
  (hserves : ServesMap source records)

include h hserves

/-- A request brings the next records of the map. -/
theorem fetch_served (hcapacity : p.capacity < UInt32.size)
    (hlow : p.low = .lowest ∨ p.low ∈ records) :
    let page := (recordsBehind records p.low).take p.capacity
    ∃ q, p.fetch source = (.ok (), q) ∧ q.capacity = p.capacity ∧
      q.pending = p.pending ++ page ∧ q.low = page.getLast?.getD p.low ∧
      q.done = (p.done || page.getLast?.all (·.isLast)) := by
  intro page
  have hkey : (DeviceBuffer.prepare p.capacity p.low .highest).lowKey
      = p.low := DeviceBuffer.lowKey_prepare ..
  have hknown := hlow
  rw [← hkey] at hknown
  obtain ⟨b, s, hanswer, hanswered⟩ := hserves _ p.state hcapacity hknown
  have hpage : cutAfter (·.isLast) b.answered = page := by
    rw [hanswered, hkey]
    apply h.cutAfter_page
    exact (List.take_prefix _ _).isInfix.trans
      (recordsBehind_suffix _ _).isInfix
  unfold fetch
  simp only [hanswer, hpage]
  cases htail : page.getLast? with
  | none =>
    obtain hnil : page = [] := List.getLast?_eq_none_iff.1 htail
    refine ⟨_, rfl, rfl, ?_, rfl, ?_⟩
    · simp [hnil]
    · simp
  | some tail => exact ⟨_, rfl, rfl, rfl, rfl, rfl⟩

/-- A pager that stands in front of some records of the map hands them
out. -/
theorem drained_served (rest : List DeviceRecord) :
    ∀ p : DevicePager σ, 1 ≤ p.capacity → p.capacity < UInt32.size →
      p.pending = [] → p.done = false →
      (p.low = .lowest ∨ p.low ∈ records) →
      recordsBehind records p.low = rest →
      ∃ q, Drained (·.next source) p (rest.map .ok) q := by
  induction hlength : rest.length using Nat.strong_induction_on
    generalizing rest with
  | _ n ih =>
  intro p hroom hcapacity hpending hopen hlow hrest
  obtain ⟨p', hfetch, hcapacity', hpending', hlow', hdone'⟩ :=
    fetch_served h hserves hcapacity hlow
  rw [hrest] at hpending' hlow' hdone'
  rw [hpending, List.nil_append] at hpending'
  rw [hopen, Bool.false_or] at hdone'
  -- it is enough to see what comes behind the page
  suffices hbehind : ∃ q, Drained (·.next source) { p' with pending := [] }
      ((rest.drop p.capacity).map .ok) q by
    obtain ⟨q, hbehind⟩ := hbehind
    have hpage := drained_fetch hpending hopen hfetch hbehind
    rw [hpending', ← List.map_append, List.take_append_drop] at hpage
    exact ⟨q, hpage⟩
  cases htail : (rest.take p.capacity).getLast? with
  | none =>
    have hnil : rest = [] := by
      have htake := List.getLast?_eq_none_iff.1 htail
      rcases List.take_eq_nil_iff.1 htake with hzero | hnil
      · omega
      · exact hnil
    have hdone : p'.done = true := by
      rw [hdone', htail]
      rfl
    subst hnil
    rw [List.drop_nil]
    exact ⟨_, drained_done rfl hdone⟩
  | some tail =>
    have hsplit : recordsBehind records p.low
        = rest.take p.capacity ++ rest.drop p.capacity := by
      rw [hrest, List.take_append_drop]
    have hbehind := h.recordsBehind_tail hsplit htail
    have hmem : tail ∈ records := by
      apply (recordsBehind_suffix records p.low).subset
      rw [hrest]
      exact List.mem_of_mem_take (List.mem_of_mem_getLast? htail)
    rw [htail] at hlow' hdone'
    cases hlast : tail.isLast with
    | true =>
      rw [← hbehind, h.recordsBehind_of_isLast hmem hlast]
      have hdone : p'.done = true := by
        rw [hdone']
        exact hlast
      exact ⟨_, drained_done rfl hdone⟩
    | false =>
      have hshorter : (rest.drop p.capacity).length < n := by
        have hne : rest ≠ [] := by
          rintro rfl
          simp at htail
        have hpos := List.length_pos_iff.2 hne
        rw [List.length_drop]
        omega
      apply ih _ hshorter _ rfl
      · exact hcapacity' ▸ hroom
      · exact hcapacity' ▸ hcapacity
      · rfl
      · simpa [hlast] using hdone'
      · exact .inr (hlow' ▸ hmem)
      · rw [← hbehind]
        exact congrArg _ hlow'

end Served

end DevicePager

-- ========================================================== whole maps

theorem ServesMap.recorded {σ : Type} {source : DeviceSource σ}
    {records : List DeviceRecord} (h : ServesMap source records) :
    ServesMap source.recorded records := by
  intro capacity b s hcapacity hkey
  obtain ⟨b', s', hanswer, hanswered⟩ := h b s.1 hcapacity hkey
  unfold DeviceSource.recorded
  simp only [hanswer]
  exact ⟨b', _, rfl, hanswered⟩

/-- A pager over a device hands out its map: the records in order, each
once and with every bit, however much room there is in a request. Its
first request begins at the lowest key and each other one at the final
record of the answer before it. To make the first request early changes
nothing, and the walk with enough answers gives and asks the same. -/
theorem map_complete {σ : Type} {source : DeviceSource σ}
    {records : List DeviceRecord} (h : IsDeviceMap records)
    (hserves : ServesMap source records) (batch : UInt32) (s : σ) :
    let p : DevicePager (σ × List DeviceExchange) :=
      .start batch.toNat (s, [])
    ∃ q, Drained (·.next source.recorded) p (records.map .ok) q ∧
      (p.prime source.recorded).1 = .ok () ∧
      Drained (·.next source.recorded) (p.prime source.recorded).2
        (records.map .ok) q ∧
      (∀ x ∈ q.log.head?, x.request = .lowest) ∧
      q.log.IsChain (fun x y =>
        ∃ a, x.answer = .ok a ∧ a.held.getLast? = some y.request) ∧
      ∃ used, ∀ answers,
        let walk := readDevice source.recorded batch.toNat (answers + used)
          (s, [])
        walk.1.trace.items = records.map .ok ∧ walk.2 = q.state := by
  intro p
  have hroom : 1 ≤ p.capacity := Nat.le_max_right ..
  have hcapacity : p.capacity < UInt32.size :=
    Nat.max_lt.2 ⟨batch.toNat_lt, by decide⟩
  obtain ⟨q, hdrained⟩ := DevicePager.drained_served h hserves.recorded
    records p hroom hcapacity rfl rfl (.inl rfl)
    (recordsBehind_lowest records)
  -- the first request, made early
  obtain ⟨p', hfetch, -⟩ :=
    DevicePager.fetch_served h hserves.recorded (p := p) hcapacity (.inl rfl)
  have hprime : p.prime source.recorded = (.ok (), p') := hfetch
  have hnext := DevicePager.next_fetch rfl rfl hfetch
    (DevicePager.done_of_fetch rfl hfetch)
  -- the exchanges of the drained pager
  have hpaging := (DevicePager.paging_next source).symm ▸ hdrained
  obtain ⟨hsound, -⟩ := (DevicePager.sound_start source batch.toNat s).drained
    (DevicePager.lawful source batch.toNat) hpaging
  obtain ⟨used, hwalk⟩ := DevicePager.walk_of_drained hdrained
  refine ⟨q, hdrained, ?_, ?_, ?_, ?_, used, ?_⟩
  · rw [hprime]
  · rw [hprime]
    exact hdrained.congr hnext.symm
  · intro x hx
    exact (Option.some_inj.1 (hsound.dialogue.first x hx)).symm
  · apply hsound.dialogue.chain.imp
    intro x y hxy
    obtain ⟨tail, honward, htail⟩ := Option.bind_eq_some_iff.1 hxy
    obtain rfl := Option.some_inj.1 htail
    exact (DeviceExchange.onward_eq_some honward).2
  · intro answers
    exact Prod.ext_iff.1 (hwalk answers)

-- ====================================================== a mapped device

/-- A device that looks its records up for every request. -/
def mappedDevice (records : List DeviceRecord) : DeviceSource Unit where
  answer {capacity} b s :=
    let page := (recordsBehind records b.lowKey).take capacity
    (.ok ((b.fill 0 page).setClaimed (UInt32.ofNat page.length)), s)

theorem servesMap_mappedDevice (records : List DeviceRecord) :
    ServesMap (mappedDevice records) records := by
  intro capacity b s hcapacity _
  have hroom := List.length_take_le capacity
    (recordsBehind records b.lowKey)
  exact ⟨_, s, rfl, DeviceBuffer.answered_fill b hroom
    (Nat.lt_of_le_of_lt hroom hcapacity)⟩

/-- Metadata, a file whose flags have bits without a name, and free space
with the mark. -/
def threeOwners : List DeviceRecord := [
  ⟨0x801, .specialOwner, 0, SpecialOwner.metadata.raw, 0, 4096⟩,
  ⟨0x801, ⟨0x80000040⟩, 4096, 131, 8192, 8192⟩,
  ⟨0x801, ⟨0x30⟩, 12288, SpecialOwner.free.raw, 0, 4096⟩]

theorem isDeviceMap_threeOwners : IsDeviceMap threeOwners where
  nodup := by decide
  nonempty := by decide
  unmarked := by decide

theorem map_complete_threeOwners :
    IsDeviceMap threeOwners ∧
    ServesMap (mappedDevice threeOwners) threeOwners ∧
    ∃ q, Drained (DevicePager.next (mappedDevice threeOwners).recorded)
      (DevicePager.start 2 ((), [])) (threeOwners.map .ok) q := by
  have hserves : ServesMap (mappedDevice threeOwners) threeOwners :=
    servesMap_mappedDevice threeOwners
  obtain ⟨q, hdrained, -⟩ :=
    map_complete isDeviceMap_threeOwners hserves 2 ()
  exact ⟨isDeviceMap_threeOwners, hserves, q, hdrained⟩

end DiskAtlas.Mapping

/-
Reading a file from a source that may say anything. Its answers may hold
any bytes, claim any number of records and fail at any time; the reading is
safe and comes to an end all the same (`FilePager.reading_safe`), whenever
the pager is called and whether or not its first request is made early.

Why it ends: an answer leads on only to an offset past the start of its own
request (`lt_of_nextStart`) and before the end of the stretch, so there are
no more requests than bytes. What an answer must be to end the reading is
said without the pager (`FileExchange.Ends`), and it is exactly what leads
to no other request (`FileExchange.ends_iff`).
-/
import Mathlib.Order.Interval.Finset.Nat
import DiskAtlas.Proofs.Mapping.Paging
import DiskAtlas.Proofs.Mapping.FilePager

namespace DiskAtlas.Mapping

-- ============================================================ exchanges

namespace FileExchange

/-- What an exchange brings: its failure, or its records without the mark
of the last one. -/
def news (x : FileExchange) : List (Except Error RawExtent) :=
  Exchange.news RawExtent.isLast RawExtent.clearLast x

/-- Where the request after an exchange begins, if it leads anywhere. -/
def onward (x : FileExchange) : Option UInt64 :=
  nextStart x.request.start (x.shown RawExtent.isLast)

/-- What ends a reading up to `stop`: an answer that fails, holds nothing
or has a record marked as the last, and one whose final record ends no
further than its own request began, or at the end of the stretch. -/
inductive Ends (stop : UInt64) (x : FileExchange) : Prop where
  | final (h : x.IsFinal RawExtent.isLast)
  | stuck {a : Answer RawExtent} {tail : RawExtent} (h : x.answer = .ok a)
      (htail : a.held.getLast? = some tail)
      (hstuck : tail.logical.toNat + tail.length.toNat
        ≤ x.request.start.toNat)
  | covered {a : Answer RawExtent} {tail : RawExtent}
      (h : x.answer = .ok a) (htail : a.held.getLast? = some tail)
      (hcovered : stop.toNat ≤ tail.logical.toNat + tail.length.toNat)

variable {x : FileExchange}

/-- A final answer leads nowhere. -/
theorem onward_of_isFinal (h : x.IsFinal RawExtent.isLast) :
    onward x = none := by
  unfold onward nextStart
  cases htail : (x.shown RawExtent.isLast).getLast? with
  | none => rfl
  | some tail =>
    simp only [h.getLast?_shown tail htail, if_true]

/-- Another answer leads to the end of its final record, if that lies past
the start of its own request. -/
theorem onward_of_not_isFinal (h : ¬ x.IsFinal RawExtent.isLast) :
    ∃ a tail, x.answer = .ok a ∧ a.held.getLast? = some tail ∧
      onward x = if x.request.start < tail.nextLogical
        then some tail.nextLogical else none := by
  obtain ⟨a, tail, hanswer, hheld, hshown, hlast⟩ :=
    Exchange.shown_of_not_isFinal h
  refine ⟨a, tail, hanswer, hheld, ?_⟩
  unfold onward nextStart
  simp [hshown, hlast]

end FileExchange

namespace FileReader

/-- The request for what is left of the stretch from an offset on, if
anything is. -/
def asks (r : FileReader) (start : UInt64) : Option FileRequest :=
  if start < r.stop then some ⟨start, r.stop - start, r.flags⟩ else none

theorem asks_eq_none_iff {r : FileReader} {start : UInt64} :
    r.asks start = none ↔ r.stop ≤ start := by
  unfold asks
  split
  · next hlt => simpa using hlt
  · next hge => simpa using hge

theorem asks_eq_some {r : FileReader} {start : UInt64} {q : FileRequest}
    (h : r.asks start = some q) :
    start < r.stop ∧ q = ⟨start, r.stop - start, r.flags⟩ := by
  unfold asks at h
  split at h
  · next hlt => exact ⟨hlt, (Option.some_inj.1 h).symm⟩
  · cases h

end FileReader

/-- An exchange ends the reading exactly if no request comes after it. -/
theorem FileExchange.ends_iff {r : FileReader} {x : FileExchange}
    (hx : x.request.start < r.stop) :
    x.Ends r.stop ↔ (onward x).bind r.asks = none := by
  by_cases hfinal : x.IsFinal RawExtent.isLast
  · rw [onward_of_isFinal hfinal]
    exact ⟨fun _ => rfl, fun _ => .final hfinal⟩
  -- not final, so there is a last record, and all depends on where it ends
  obtain ⟨a, tail, hanswer, htail, honward⟩ := onward_of_not_isFinal hfinal
  have hend : tail.nextLogical.toNat = _ :=
    toNat_satAdd tail.logical tail.length
  have hstop := r.stop.toNat_lt
  rw [UInt64.lt_iff_toNat_lt] at hx
  rw [toNat_maxWord] at hend
  have hpast : x.request.start < tail.nextLogical ↔ _ :=
    UInt64.lt_iff_toNat_lt
  have hreach : r.stop ≤ tail.nextLogical ↔ _ := UInt64.le_iff_toNat_le
  constructor
  · intro hends
    cases hends with
    | final h => exact absurd h hfinal
    | stuck h htail' hstuck =>
      obtain rfl := Except.ok.inj (hanswer.symm.trans h)
      obtain rfl := Option.some_inj.1 (htail.symm.trans htail')
      have hnot : ¬ x.request.start < tail.nextLogical := by
        rw [hpast]
        omega
      rw [honward, if_neg hnot]
      rfl
    | covered h htail' hcovered =>
      obtain rfl := Except.ok.inj (hanswer.symm.trans h)
      obtain rfl := Option.some_inj.1 (htail.symm.trans htail')
      rw [honward]
      split
      · exact FileReader.asks_eq_none_iff.2 (hreach.2 (by omega))
      · rfl
  · intro hnone
    rw [honward] at hnone
    split at hnone
    · have hcovered := hreach.1 (FileReader.asks_eq_none_iff.1 hnone)
      exact .covered hanswer htail (by omega)
    · next hnot =>
      rw [hpast] at hnot
      exact .stuck hanswer htail (by omega)

-- ============================================================= requests

/-- What is true of the exchanges of a reading, whatever the source has
said. -/
structure SafeReading (r : FileReader) (log : List FileExchange) :
    Prop where
  /-- Each request lies in the stretch. -/
  within : ∀ x ∈ log,
    r.start ≤ x.request.start ∧ x.request.start < r.stop
  /-- Each request asks for all that is left of the stretch. -/
  reaches : ∀ x ∈ log, x.request.flags = r.flags ∧
    x.request.start.toNat + x.request.length.toNat = r.stop.toNat
  /-- Each request begins past the one before it. -/
  ascending : (log.map (·.request.start)).Pairwise (· < ·)
  few : log.length ≤ r.stop.toNat - r.start.toNat
  /-- No other request comes after what ends the reading. -/
  goes_on : ∀ x ∈ log.dropLast, ¬ x.Ends r.stop
  /-- Each answer has the room that was asked for. -/
  room : ∀ x ∈ log, ∀ a, x.answer = .ok a →
    a.slots.length = max r.batch 1

section Requests

open FileExchange

variable {r : FileReader} {log : List FileExchange} {x y : FileExchange}

/-- Each request of a reading starts past the one before it, since an answer is
gone on from only behind the start of its request. -/
theorem starts_ascending
    (h : Dialogue r.asks onward r.start log) :
    (log.map (·.request.start)).Pairwise (· < ·) := by
  apply List.IsChain.pairwise
  rw [List.isChain_map]
  apply h.chain.imp
  intro x y hxy
  obtain ⟨next, hnext, hasks⟩ := Option.bind_eq_some_iff.1 hxy
  obtain ⟨-, hrequest⟩ := FileReader.asks_eq_some hasks
  rw [hrequest]
  exact lt_of_nextStart hnext

/-- No request reaches back before the start of the reading. -/
theorem start_le (h : Dialogue r.asks onward r.start log) (hx : x ∈ log) :
    r.start ≤ x.request.start := by
  obtain ⟨before, behind, rfl⟩ := List.append_of_mem hx
  have hfirst : ∀ first ∈ (before ++ x :: behind).head?,
      first.request.start = r.start := by
    intro first hmem
    rw [(FileReader.asks_eq_some (h.first first hmem)).2]
  cases before with
  | nil => exact UInt64.le_of_eq (hfirst x rfl).symm
  | cons first before =>
    rw [← hfirst first rfl]
    have hsorted := starts_ascending h
    rw [List.cons_append, List.map_cons, List.pairwise_cons] at hsorted
    apply UInt64.le_of_lt
    apply hsorted.1
    exact List.mem_map_of_mem (List.mem_append_right _ List.mem_cons_self)

/-- Increasing starts in a stretch are no more than it has bytes. -/
theorem length_le_of_ascending {a b : Nat} {starts : List UInt64}
    (hsorted : starts.Pairwise (· < ·))
    (hbounds : ∀ s ∈ starts, a ≤ s.toNat ∧ s.toNat < b) :
    starts.length ≤ b - a := by
  have hnodup : (starts.map (·.toNat)).Nodup := by
    rw [List.Nodup, List.pairwise_map]
    apply hsorted.imp
    intro s t hlt
    exact Nat.ne_of_lt (UInt64.lt_iff_toNat_lt.1 hlt)
  have hsub : (starts.map (·.toNat)).toFinset ⊆ Finset.Ico a b := by
    intro n hn
    obtain ⟨s, hs, rfl⟩ := List.mem_map.1 (List.mem_toFinset.1 hn)
    exact Finset.mem_Ico.2 (hbounds s hs)
  have hcard := Finset.card_le_card hsub
  rw [List.toFinset_card_of_nodup hnodup, Nat.card_Ico] at hcard
  simpa using hcard

/-- Each request is the one for what is left from its own start on. -/
theorem request_eq (h : Dialogue r.asks onward r.start log) (hx : x ∈ log) :
    x.request.start < r.stop ∧
      x.request = ⟨x.request.start, r.stop - x.request.start, r.flags⟩ := by
  have hasked : ∃ start, r.asks start = some x.request := by
    rcases h.asked hx with hfirst | ⟨y, -, hnext⟩
    · exact ⟨r.start, hfirst⟩
    · obtain ⟨next, -, hasks⟩ := Option.bind_eq_some_iff.1 hnext
      exact ⟨next, hasks⟩
  obtain ⟨start, hasks⟩ := hasked
  obtain ⟨hlt, hrequest⟩ := FileReader.asks_eq_some hasks
  rw [hrequest]
  exact ⟨hlt, rfl⟩

/-- The safe reading, from the dialogue alone; only the room in the answers
comes from how the pager makes its buffers. -/
theorem safeReading (h : Dialogue r.asks onward r.start log)
    (room : ∀ x ∈ log, ∀ a, x.answer = .ok a →
      a.slots.length = max r.batch 1) :
    SafeReading r log := by
  have hwithin : ∀ x ∈ log,
      r.start ≤ x.request.start ∧ x.request.start < r.stop :=
    fun x hx => ⟨start_le h hx, (request_eq h hx).1⟩
  refine ⟨hwithin, ?_, starts_ascending h, ?_, ?_, room⟩
  · intro x hx
    obtain ⟨hlt, hrequest⟩ := request_eq h hx
    rw [hrequest]
    refine ⟨rfl, ?_⟩
    show x.request.start.toNat + (r.stop - x.request.start).toNat
      = r.stop.toNat
    rw [UInt64.toNat_sub_of_le _ _ (UInt64.le_of_lt hlt)]
    have := UInt64.lt_iff_toNat_lt.1 hlt
    omega
  · rw [← List.length_map (·.request.start)]
    apply length_le_of_ascending (starts_ascending h)
    intro s hs
    obtain ⟨x, hx, rfl⟩ := List.mem_map.1 hs
    have hbounds := hwithin x hx
    exact ⟨UInt64.le_iff_toNat_le.1 hbounds.1,
      UInt64.lt_iff_toNat_lt.1 hbounds.2⟩
  · intro x hx hends
    have hmem := List.dropLast_subset log hx
    obtain ⟨next, hnext, hasks⟩ := h.goes_on hx
    apply hasks
    simpa [hnext] using (ends_iff (hwithin x hmem).2).1 hends

/-- The requests are over once there was an exchange that ends the reading,
or if there is nothing to read. -/
theorem over_iff (h : Dialogue r.asks onward r.start log) :
    (ahead onward r.start log).bind r.asks = none ↔
      r.stop ≤ r.start ∨ ∃ x ∈ log.getLast?, x.Ends r.stop := by
  cases hlast : log.getLast? with
  | none =>
    simp [ahead, hlast, FileReader.asks_eq_none_iff]
  | some x =>
    have hx := List.mem_of_mem_getLast? hlast
    have hstart := (request_eq h hx).1
    have hsome : r.start < r.stop :=
      UInt64.lt_of_le_of_lt (start_le h hx) hstart
    have hnot : ¬ r.stop ≤ r.start := by simpa using hsome
    have hstep : ahead onward r.start log = onward x := by
      simp [ahead, hlast]
    rw [hstep, or_iff_right hnot, ← ends_iff hstart]
    simp

end Requests

-- =============================================================== paging

/-- What a pager cuts from the bytes of a buffer is what the answer shows. -/
theorem FileBuffer.cutAfter_answered {capacity : Nat}
    (b : FileBuffer capacity) :
    cutAfter (·.isLast) b.answered = b.contents.shown RawExtent.isLast := by
  have hheld : b.answered = b.contents.held := by
    simp [answered, contents, Answer.held, List.take_eq_take_min]
  rw [cutAfter_eq, hheld, Answer.shown]

namespace FilePager

open FileExchange

variable {σ : Type}

/-- The exchanges of a pager whose source is recorded. -/
abbrev log (p : FilePager (σ × List FileExchange)) : List FileExchange :=
  p.state.2

/-- Some calls of a pager whose source is recorded, and what they tell. -/
abbrev tellMany (source : FileSource σ) (calls : List PagerCall)
    (p : FilePager (σ × List FileExchange)) :
    List (Except Error RawExtent) × FilePager (σ × List FileExchange) :=
  tells (·.prime source.recorded) (·.next source.recorded) calls p

/-- The pager of a reader as a pager in general. -/
def paging (source : FileSource σ) (r : FileReader) :
    Paging (FilePager (σ × List FileExchange)) UInt64 FileRequest
      RawExtent where
  fetch p := p.fetch source.recorded
  pending p := p.pending
  keep p records := { p with pending := records }
  fetched p := p.fetched
  done p := p.done
  log p := p.log
  position p := p.start
  start := r.start
  asks := r.asks
  onward := onward
  news := news

/-- What the calls of a reader's pager leave alone, and the room of the
answers it gets. -/
structure OfReader (r : FileReader) (p : FilePager (σ × List FileExchange)) :
    Prop where
  capacity_eq : p.capacity = max r.batch 1
  flags_eq : p.flags = r.flags
  stop_eq : p.stop = r.stop
  room : ∀ x ∈ p.log, ∀ a, x.answer = .ok a →
    a.slots.length = max r.batch 1

section Fetch

variable (source : FileSource σ)
  {p : FilePager (σ × List FileExchange)}

/-- The exchange that the next request of a pager is. -/
def exchange (source : FileSource σ)
    (p : FilePager (σ × List FileExchange)) : FileExchange where
  request := ⟨p.start, p.stop - p.start, p.flags⟩
  answer := (source.answer (FileBuffer.prepare p.capacity
    ⟨p.start, p.stop - p.start, p.flags⟩) p.state.1).1.map (·.contents)

/-- The pager after an exchange that left the source in `s`. -/
def after (p : FilePager (σ × List FileExchange)) (x : FileExchange) (s : σ) :
    FilePager (σ × List FileExchange) :=
  { p with
    state := (s, p.log ++ [x])
    fetched := true
    pending := p.pending ++ (x.shown RawExtent.isLast).map (·.clearLast)
    start := (onward x).getD p.start
    done := (onward x).isNone }

/-- A request with something left to ask for is one more exchange. -/
theorem fetch_eq (hopen : p.done = false) (hlt : p.start < p.stop) :
    ∃ s, p.fetch source.recorded
      = ((exchange source p).answer.map fun _ => (),
        p.after (exchange source p) s) := by
  unfold fetch exchange
  cases hanswer : source.answer (FileBuffer.prepare p.capacity
    ⟨p.start, p.stop - p.start, p.flags⟩) p.state.1 with
  | mk reply s =>
    let x : FileExchange :=
      ⟨⟨p.start, p.stop - p.start, p.flags⟩, reply.map (·.contents)⟩
    have hrecorded : source.recorded.answer (FileBuffer.prepare p.capacity
        ⟨p.start, p.stop - p.start, p.flags⟩) p.state
          = (reply, s, p.log ++ [x]) := by
      simp only [FileSource.recorded, hanswer, FileBuffer.request_prepare, x]
    refine ⟨s, ?_⟩
    simp only [if_pos hlt]
    rw [hrecorded]
    -- an error ends the pager; an answer is cut and tells where to go on
    cases reply with
    | error e =>
      have honward : onward x = none := onward_of_isFinal (.failed rfl)
      have hshown : x.shown RawExtent.isLast = [] := rfl
      have hafter : p.after x s
          = { p with
              state := (s, p.log ++ [x]), fetched := true, done := true } := by
        simp [after, honward, hshown]
      exact Prod.ext rfl hafter.symm
    | ok buffer =>
      have hshown : cutAfter (·.isLast) buffer.answered
          = x.shown RawExtent.isLast := buffer.cutAfter_answered
      have honward : nextStart p.start (cutAfter (·.isLast) buffer.answered)
          = onward x := by
        rw [onward, hshown]
      dsimp only
      rw [honward, hshown]
      apply Prod.ext
      · cases onward x <;> rfl
      · cases hnext : onward x <;> simp [after, x, hnext, hopen]

theorem room_exchange {a : Answer RawExtent}
    (h : (exchange source p).answer = .ok a) :
    a.slots.length = p.capacity := by
  unfold exchange at h
  cases hreply : (source.answer (FileBuffer.prepare p.capacity
    ⟨p.start, p.stop - p.start, p.flags⟩) p.state.1).1 with
  | error e =>
    simp only [hreply] at h
    cases h
  | ok buffer =>
    simp only [hreply] at h
    obtain rfl := Except.ok.inj h
    simp [FileBuffer.contents, FileBuffer.extents]

end Fetch

-- ============================================================ the pager

/-- A request comes to one of the things that requests may come to. -/
theorem fetches_fetch (source : FileSource σ) {r : FileReader}
    {p : FilePager (σ × List FileExchange)} (h : OfReader r p)
    (hopen : p.done = false) :
    (paging source r).Fetches p (p.fetch source.recorded) := by
  by_cases hlt : p.start < p.stop
  swap
  · have hnone : r.asks p.start = none := by
      rw [FileReader.asks_eq_none_iff, ← h.stop_eq]
      simpa using hlt
    simp only [fetch, if_neg hlt]
    exact .past hnone rfl rfl rfl rfl
  obtain ⟨s, hfetch⟩ := fetch_eq source hopen hlt
  have hasked : r.asks p.start = some (exchange source p).request := by
    have hlt' := hlt
    rw [h.stop_eq] at hlt'
    rw [FileReader.asks, if_pos hlt', ← h.stop_eq, ← h.flags_eq]
    rfl
  rw [hfetch]
  refine .of_exchange hasked ?_ ?_ rfl rfl rfl rfl ?_
  · intro hnil
    have hshown : (exchange source p).shown RawExtent.isLast = [] := by
      simpa using hnil
    show onward _ = none
    rw [onward, hshown]
    rfl
  · cases hanswer : (exchange source p).answer <;>
      simp [paging, news, Exchange.news, Exchange.shown, hanswer]
  · intro next hnext
    have hnext : onward (exchange source p) = some next := hnext
    simp [paging, after, hnext]

/-- A fetch keeps a pager with its reader: only its start moves, and the answer
it adds to the log has the room the reader asks for. -/
theorem ofReader_fetch (source : FileSource σ) {r : FileReader}
    {p : FilePager (σ × List FileExchange)} (h : OfReader r p)
    (hopen : p.done = false) : OfReader r (p.fetch source.recorded).2 := by
  by_cases hlt : p.start < p.stop
  swap
  · simp only [fetch, if_neg hlt]
    exact ⟨h.capacity_eq, h.flags_eq, h.stop_eq, h.room⟩
  obtain ⟨s, hfetch⟩ := fetch_eq source hopen hlt
  rw [hfetch]
  refine ⟨h.capacity_eq, h.flags_eq, h.stop_eq, ?_⟩
  intro x hx a ha
  rcases List.mem_append.1 hx with hold | hnew
  · exact h.room x hold a ha
  · obtain rfl := List.mem_singleton.1 hnew
    rw [← h.capacity_eq]
    exact room_exchange source ha

/-- A file pager follows the laws of `Paging`, whatever the source answers. -/
theorem lawful (source : FileSource σ) (r : FileReader) :
    (paging source r).Lawful (OfReader r) where
  fetches _ h hopen := fetches_fetch source h hopen
  inv_fetch _ h hopen := ofReader_fetch source h hopen
  inv_keep _ _ h := ⟨h.capacity_eq, h.flags_eq, h.stop_eq, h.room⟩
  pending_keep _ _ := rfl
  fetched_keep _ _ := rfl
  done_keep _ _ := rfl
  log_keep _ _ := rfl
  position_keep _ _ := rfl

theorem paging_pop (source : FileSource σ) (r : FileReader) :
    (paging source r).pop = pop := by
  funext p
  unfold Paging.pop pop
  cases hpending : p.pending <;> simp [paging, hpending]

theorem paging_next (source : FileSource σ) (r : FileReader) :
    (paging source r).next = (·.next source.recorded) := by
  funext p
  unfold Paging.next next
  rw [paging_pop]
  rcases hfetch : p.fetch source.recorded with ⟨_ | _, q⟩ <;>
    simp [paging, hfetch]

theorem sound_pager (source : FileSource σ) (r : FileReader) (s : σ) :
    (paging source r).Sound (OfReader r) (r.pager (s, [])) [] where
  inv := ⟨rfl, rfl, rfl, nofun⟩
  dialogue := dialogue_nil
  next_eq _ := rfl
  ended := nofun
  unasked _ := rfl
  told_eq := rfl

/-- Whoever goes on asking gets to the end. -/
theorem exists_drained (source : FileSource σ) (p : FilePager σ) :
    ∃ items q, Drained (·.next source) p items q := by
  have htells := tells_items source p
  generalize p.items source = items at htells
  induction htells with
  | ended hnext => exact ⟨_, _, .ended hnext⟩
  | more hnext _ ih =>
    obtain ⟨items, q, hdrained⟩ := ih
    exact ⟨_, _, .more hnext hdrained⟩

/-- However a pager is called and whatever its source answers: its requests
ask for what is left of the stretch, each from further on, and are no more
than there are bytes. All that was told, and some records that are kept,
are the records and failures of the answers in order, each answer as far as
it claims, has room and up to the first mark. An answer that ends the
reading is the final one, and no call makes another request then. And
whoever goes on asking is told the rest, gets to the end and stays
there. -/
theorem reading_safe (source : FileSource σ) (r : FileReader) (s : σ)
    (calls : List PagerCall) :
    let told := ((r.pager (s, [])).tellMany source calls).1
    let p := ((r.pager (s, [])).tellMany source calls).2
    SafeReading r p.log ∧
    (∃ kept : List RawExtent,
      told ++ kept.map .ok = p.log.flatMap FileExchange.news) ∧
    ((r.stop ≤ r.start ∨ ∃ x ∈ p.log.getLast?, x.Ends r.stop) →
      ∀ more, (p.tellMany source more).2.log = p.log) ∧
    ∃ items q, Drained (·.next source.recorded) p items q ∧
      told ++ items = q.log.flatMap FileExchange.news ∧
      (r.stop ≤ r.start ∨ ∃ x ∈ q.log.getLast?, x.Ends r.stop) ∧
      q.next source.recorded = (none, q) := by
  intro told p
  have laws := lawful source r
  have hnext := paging_next source r
  have hsound := (sound_pager source r s).tellMany laws calls
  rw [hnext] at hsound
  -- the reading ends whatever the source says, as the starts only grow
  obtain ⟨items, q, hdrained⟩ := exists_drained source.recorded p
  have hend := hsound.drained laws (hnext ▸ hdrained)
  rw [hnext] at hend
  obtain ⟨hq, hdone, htold, hstays⟩ := hend
  refine ⟨safeReading hsound.dialogue hsound.inv.room,
    ⟨p.pending, hsound.told_eq⟩, ?_, items, q, hdrained, htold, ?_, hstays⟩
  · intro hover
    have hkept := hsound.log_tellMany laws
      ((over_iff hsound.dialogue).2 hover)
    rw [hnext] at hkept
    exact hkept
  · exact (over_iff hq.dialogue).1 (hq.ended hdone)

end FilePager

end DiskAtlas.Mapping

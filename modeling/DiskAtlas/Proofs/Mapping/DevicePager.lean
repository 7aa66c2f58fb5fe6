/-
The pager of a device is a pager like others (`DevicePager.lawful`): each
of its requests is one more exchange (`fetch_eq`), in which the low key of
the request is the final record of the answer before it, and an exchange
leads nowhere exactly if it is final (`DeviceExchange.onward_eq_none_iff`).
So what holds of all pagers between two calls holds of it, whatever its
source answers (`sound_start`).
-/
import DiskAtlas.Mapping.DevicePager
import DiskAtlas.Proofs.Mapping.DeviceRequest
import DiskAtlas.Proofs.Mapping.Paging

namespace DiskAtlas.Mapping

-- ============================================================ exchanges

namespace DeviceExchange

/-- What an exchange brings: its failure, or its records as they are. -/
def news (x : DeviceExchange) : List (Except Error DeviceRecord) :=
  Exchange.news DeviceRecord.isLast id x

/-- The low key of the request after an exchange, if there is one. -/
def onward (x : DeviceExchange) : Option DeviceRecord :=
  (x.shown DeviceRecord.isLast).getLast?.filter (!·.isLast)

variable {x : DeviceExchange}

/-- An exchange leads nowhere exactly if it is final. -/
theorem onward_eq_none_iff :
    onward x = none ↔ x.IsFinal DeviceRecord.isLast := by
  constructor
  · intro hnone
    by_contra hfinal
    obtain ⟨a, tail, -, -, hshown, hlast⟩ :=
      Exchange.shown_of_not_isFinal hfinal
    simp [onward, hshown, hlast] at hnone
  · intro hfinal
    unfold onward
    cases htail : (x.shown DeviceRecord.isLast).getLast? with
    | none => rfl
    | some tail => simp [hfinal.getLast?_shown tail htail]

/-- Another exchange leads to the final record of its answer. -/
theorem onward_eq_some {tail : DeviceRecord} (h : onward x = some tail) :
    tail.isLast = false ∧
      ∃ a, x.answer = .ok a ∧ a.held.getLast? = some tail := by
  have hfinal : ¬ x.IsFinal DeviceRecord.isLast := by
    rw [← onward_eq_none_iff, h]
    nofun
  obtain ⟨a, tail', hanswer, htail, hshown, hlast⟩ :=
    Exchange.shown_of_not_isFinal hfinal
  have honward : onward x = some tail' := by
    simp [onward, hshown, hlast]
  obtain rfl := Option.some_inj.1 (h.symm.trans honward)
  exact ⟨hlast, a, hanswer, htail⟩

end DeviceExchange

theorem DeviceBuffer.answered_eq_held {capacity : Nat}
    (b : DeviceBuffer capacity) : b.answered = b.contents.held := by
  simp [answered, contents, Answer.held, List.take_eq_take_min]

/-- What a pager cuts from the bytes of a buffer is what the answer shows. -/
theorem DeviceBuffer.cutAfter_answered {capacity : Nat}
    (b : DeviceBuffer capacity) :
    cutAfter (·.isLast) b.answered
      = b.contents.shown DeviceRecord.isLast := by
  rw [cutAfter_eq, answered_eq_held, Answer.shown]

-- =============================================================== paging

namespace DevicePager

open DeviceExchange

variable {σ : Type}

/-- The exchanges of a pager whose source is recorded. -/
abbrev log (p : DevicePager (σ × List DeviceExchange)) :
    List DeviceExchange :=
  p.state.2

/-- Some calls of a pager whose source is recorded, and what they tell. -/
abbrev tellMany (source : DeviceSource σ) (calls : List PagerCall)
    (p : DevicePager (σ × List DeviceExchange)) :
    List (Except Error DeviceRecord) × DevicePager (σ × List DeviceExchange) :=
  tells (·.prime source.recorded) (·.next source.recorded) calls p

/-- The pager of a device as a pager in general. Whatever its low key is,
there is a request for what lies behind it. -/
def paging (source : DeviceSource σ) :
    Paging (DevicePager (σ × List DeviceExchange)) DeviceRecord
      DeviceRecord DeviceRecord where
  fetch p := p.fetch source.recorded
  pending p := p.pending
  keep p records := { p with pending := records }
  fetched p := p.fetched
  done p := p.done
  log p := p.log
  position p := p.low
  start := .lowest
  asks := some
  onward := onward
  news := news

/-- Did a source give an exchange, when it was asked with the low key of
the exchange and room for some records? -/
def Gave (source : DeviceSource σ) (capacity : Nat) (x : DeviceExchange) :
    Prop :=
  ∃ s, x.answer = (source.answer
    (DeviceBuffer.prepare capacity x.request .highest) s).1.map (·.contents)

/-- What the calls of a pager leave alone, and where its exchanges come
from. -/
structure OfBatch (source : DeviceSource σ) (batch : Nat)
    (p : DevicePager (σ × List DeviceExchange)) : Prop where
  capacity_eq : p.capacity = max batch 1
  gave : ∀ x ∈ p.log, Gave source (max batch 1) x

section Fetch

variable (source : DeviceSource σ)
  {p : DevicePager (σ × List DeviceExchange)}

/-- The exchange that the next request of a pager is. -/
def exchange (source : DeviceSource σ)
    (p : DevicePager (σ × List DeviceExchange)) : DeviceExchange where
  request := p.low
  answer := (source.answer (DeviceBuffer.prepare p.capacity p.low .highest)
    p.state.1).1.map (·.contents)

/-- The pager after an exchange that left the source in `s`. -/
def after (p : DevicePager (σ × List DeviceExchange)) (x : DeviceExchange)
    (s : σ) (encoded : Bool) : DevicePager (σ × List DeviceExchange) :=
  { p with
    state := (s, p.log ++ [x])
    fetched := true
    pending := p.pending ++ x.shown DeviceRecord.isLast
    low := ((x.shown DeviceRecord.isLast).getLast?).getD p.low
    encoded := encoded
    done := (onward x).isNone }

/-- A request is one more exchange. -/
theorem fetch_eq (hopen : p.done = false) :
    ∃ s encoded, p.fetch source.recorded
      = ((exchange source p).answer.map fun _ => (),
        p.after (exchange source p) s encoded) := by
  unfold fetch exchange
  cases hanswer : source.answer
    (DeviceBuffer.prepare p.capacity p.low .highest) p.state.1 with
  | mk reply s =>
    let x : DeviceExchange := ⟨p.low, reply.map (·.contents)⟩
    have hrecorded : source.recorded.answer
        (DeviceBuffer.prepare p.capacity p.low .highest) p.state
          = (reply, s, p.log ++ [x]) := by
      simp only [DeviceSource.recorded, hanswer,
        DeviceBuffer.lowKey_prepare, x]
    dsimp only
    rw [hrecorded]
    -- an error ends the pager; an answer is cut and tells where to go on
    cases reply with
    | error e =>
      have honward : onward x = none := onward_eq_none_iff.2 (.failed rfl)
      have hshown : x.shown DeviceRecord.isLast = [] := rfl
      refine ⟨s, p.encoded, Prod.ext rfl ?_⟩
      show _ = p.after x s p.encoded
      simp [after, honward, hshown]
    | ok buffer =>
      have hshown : cutAfter (·.isLast) buffer.answered
          = x.shown DeviceRecord.isLast := buffer.cutAfter_answered
      refine ⟨s, buffer.hasEncodedDevices, ?_⟩
      show _ = (Except.ok (), p.after x s buffer.hasEncodedDevices)
      dsimp only
      rw [hshown]
      cases htail : (x.shown DeviceRecord.isLast).getLast? with
      | none =>
        have hnil := List.getLast?_eq_none_iff.1 htail
        simp [after, onward, hnil]
      | some tail =>
        cases hlast : tail.isLast <;>
          simp [after, onward, htail, hopen, hlast]

end Fetch

-- ============================================================ the pager

/-- A request comes to one of the things that requests may come to. -/
theorem fetches_fetch (source : DeviceSource σ)
    (p : DevicePager (σ × List DeviceExchange)) (hopen : p.done = false) :
    (paging source).Fetches p (p.fetch source.recorded) := by
  obtain ⟨s, encoded, hfetch⟩ := fetch_eq source hopen
  rw [hfetch]
  refine .of_exchange rfl ?_ ?_ rfl rfl rfl rfl ?_
  · intro hnil
    show onward _ = none
    rw [onward, hnil]
    rfl
  · cases hanswer : (exchange source p).answer <;>
      simp [paging, news, Exchange.news, Exchange.shown, hanswer]
  · intro tail htail
    obtain ⟨hsome, -⟩ := Option.filter_eq_some_iff.1
      (show onward (exchange source p) = some tail from htail)
    simp [paging, after, hsome]

/-- A fetch keeps the batch, which is at least one from the start. -/
theorem ofBatch_fetch (source : DeviceSource σ) {batch : Nat}
    {p : DevicePager (σ × List DeviceExchange)} (h : OfBatch source batch p)
    (hopen : p.done = false) :
    OfBatch source batch (p.fetch source.recorded).2 := by
  obtain ⟨s, encoded, hfetch⟩ := fetch_eq source hopen
  rw [hfetch]
  refine ⟨h.capacity_eq, ?_⟩
  intro x hx
  rcases List.mem_append.1 hx with hold | hnew
  · exact h.gave x hold
  · obtain rfl := List.mem_singleton.1 hnew
    rw [← h.capacity_eq]
    exact ⟨p.state.1, rfl⟩

/-- A device pager follows the laws of `Paging`, whatever the source answers.
-/
theorem lawful (source : DeviceSource σ) (batch : Nat) :
    (paging source).Lawful (OfBatch source batch) where
  fetches p _ hopen := fetches_fetch source p hopen
  inv_fetch _ h hopen := ofBatch_fetch source h hopen
  inv_keep _ _ h := ⟨h.capacity_eq, h.gave⟩
  pending_keep _ _ := rfl
  fetched_keep _ _ := rfl
  done_keep _ _ := rfl
  log_keep _ _ := rfl
  position_keep _ _ := rfl

theorem paging_pop (source : DeviceSource σ) : (paging source).pop = pop := by
  funext p
  unfold Paging.pop pop
  cases hpending : p.pending <;> simp [paging, hpending]

theorem paging_next (source : DeviceSource σ) :
    (paging source).next = (·.next source.recorded) := by
  funext p
  unfold Paging.next next
  rw [paging_pop]
  rcases hfetch : p.fetch source.recorded with ⟨_ | _, q⟩ <;>
    simp [paging, hfetch]

theorem sound_start (source : DeviceSource σ) (batch : Nat) (s : σ) :
    (paging source).Sound (OfBatch source batch) (start batch (s, [])) [] where
  inv := ⟨rfl, nofun⟩
  dialogue := dialogue_nil
  next_eq _ := rfl
  ended := nofun
  unasked _ := rfl
  told_eq := rfl

/-- A page has no more records than there was room for. -/
theorem length_news_le {source : DeviceSource σ} {capacity : Nat}
    (hroom : 1 ≤ capacity) {x : DeviceExchange}
    (h : Gave source capacity x) : (news x).length ≤ capacity := by
  obtain ⟨s, hanswer⟩ := h
  rcases hreply : (source.answer
    (DeviceBuffer.prepare capacity x.request .highest) s).1 with _ | buffer
  · rw [hreply] at hanswer
    simpa [news, Exchange.news, hanswer, Except.map] using hroom
  · rw [hreply] at hanswer
    have hheld : buffer.contents.held.length ≤ capacity := by
      simp [Answer.held, DeviceBuffer.contents, DeviceBuffer.records]
    have hshown := Answer.length_shown_le DeviceRecord.isLast buffer.contents
    simp only [news, Exchange.news, hanswer, Except.map, List.length_map]
    exact hshown.trans hheld

end DevicePager

end DiskAtlas.Mapping

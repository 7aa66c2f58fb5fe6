/-
When the reading of a device ends. It ends if some answer is final: if it
fails, holds nothing or has a record marked as the last. It ends in no
other way, since no answer is too much like the one before it for another
request (`reading_ends`). So a device that gives the same record again and
again is read for ever (`endless_repeating`).

An answer whose final record lies past the low key of its request cannot
be given for ever, in whatever order of the records: there are only so many
records, and none is the low key twice (`length_le_of_advancing`). A
reading that does not end has therefore been given an answer that does not
get past its low key.
-/
import Mathlib.Algebra.Order.BigOperators.Group.List
import Mathlib.Data.FinEnum
import Mathlib.SetTheory.Cardinal.NatCard
import DiskAtlas.Mapping.Script
import DiskAtlas.Proofs.Mapping.DevicePager

namespace DiskAtlas.Mapping

open DeviceExchange

/-- There are only so many records. -/
instance DeviceRecord.finite : Finite DeviceRecord := by
  let fields (r : DeviceRecord) := (r.device, r.flags.bits, r.physical,
    r.ownerWord, r.offset, r.length)
  apply Finite.of_injective fields
  rintro ⟨_, ⟨_⟩, _, _, _, _⟩ ⟨_, ⟨_⟩, _, _, _, _⟩ h
  simpa [fields] using h

/-- Lists of bounded length, put after each other, are no longer than the bound
times their number. -/
theorem length_flatMap_le {α β : Type} {f : α → List β} {most : Nat}
    {l : List α} (h : ∀ a ∈ l, (f a).length ≤ most) :
    (l.flatMap f).length ≤ l.length * most := by
  induction l with
  | nil => simp
  | cons a l ih =>
    have hfirst := h a List.mem_cons_self
    have hrest := ih fun b hb => h b (List.mem_cons_of_mem a hb)
    rw [List.flatMap_cons, List.length_append, List.length_cons,
      Nat.succ_mul]
    omega

section Requests

variable {log : List DeviceExchange} {x : DeviceExchange}

/-- There is nothing left to ask for exactly after a final exchange. -/
theorem over_iff_final (h : Dialogue some onward .lowest log) :
    (ahead onward .lowest log).bind some = none ↔
      ∃ x ∈ log, x.IsFinal DeviceRecord.isLast := by
  rcases List.eq_nil_or_concat' log with rfl | ⟨before, last, rfl⟩
  · simp
  rw [ahead_snoc, Option.bind_fun_some, onward_eq_none_iff]
  constructor
  · intro hfinal
    exact ⟨last, by simp, hfinal⟩
  · intro hsome
    obtain ⟨x, hx, hfinal⟩ := hsome
    rcases List.mem_append.1 hx with hearlier | hlast
    · -- an earlier exchange has led to another one
      obtain ⟨tail, htail, -⟩ := h.goes_on (x := x) (by simpa using hearlier)
      cases (onward_eq_none_iff.2 hfinal).symm.trans htail
    · obtain rfl := List.mem_singleton.1 hlast
      exact hfinal

/-- Low keys of which each lies past the one before it are no more than
there are records. -/
theorem length_le_of_advancing {past : DeviceRecord → DeviceRecord → Prop}
    (horder : IsStrictOrder DeviceRecord past)
    (h : Dialogue some onward .lowest log)
    (hpast : ∀ x ∈ log, ∀ tail, onward x = some tail →
      past tail x.request) : log.length ≤ Nat.card DeviceRecord := by
  have hchain : (log.map (·.request)).IsChain fun a b => past b a := by
    rw [List.isChain_map]
    apply h.chain.imp_of_mem_imp
    intro x y hx _ hxy
    obtain ⟨tail, honward, htail⟩ := Option.bind_eq_some_iff.1 hxy
    obtain rfl := Option.some_inj.1 htail
    exact hpast x hx _ honward
  have hsorted : (log.map (·.request)).Pairwise fun a b => past b a := by
    have htrans : IsTrans DeviceRecord fun a b => past b a :=
      ⟨fun a b c hab hbc => horder.trans c b a hbc hab⟩
    exact hchain.pairwise
  have hnodup : (log.map (·.request)).Nodup := by
    apply hsorted.imp
    rintro a b hab rfl
    exact horder.irrefl a hab
  rw [← List.length_map (·.request)]
  exact hnodup.length_le_natCard

end Requests

-- ============================================================== the end

namespace DevicePager

variable {σ : Type}

section Pager

variable {source : DeviceSource σ} {batch : Nat}
  {p : DevicePager (σ × List DeviceExchange)}
  {told : List (Except Error DeviceRecord)}
  (h : (paging source).Sound (OfBatch source batch) p told)

include h

/-- A pager between two calls, after some others. -/
theorem sound_tellMany (calls : List PagerCall) :
    (paging source).Sound (OfBatch source batch)
      (p.tellMany source calls).2
      (told ++ (p.tellMany source calls).1) := by
  have hsound := h.tellMany (lawful source batch) calls
  rw [paging_next] at hsound
  exact hsound

/-- After a final exchange no call makes another request. -/
theorem log_tellMany {x : DeviceExchange} (hx : x ∈ p.log)
    (hfinal : x.IsFinal DeviceRecord.isLast) (calls : List PagerCall) :
    (p.tellMany source calls).2.log = p.log := by
  have hover : ((paging source).ahead p).bind (paging source).asks = none :=
    (over_iff_final h.dialogue).2 ⟨x, hx, hfinal⟩
  have hkept := h.log_tellMany (lawful source batch) hover calls
  rw [paging_next] at hkept
  exact hkept

/-- There is no more to tell than the exchanges have brought. -/
theorem length_tellMany_le (calls : List PagerCall) :
    (p.tellMany source calls).1.length
      ≤ (p.tellMany source calls).2.log.length * max batch 1 := by
  have hsound := sound_tellMany h calls
  have hnews := length_flatMap_le fun x hx =>
    length_news_le (Nat.le_max_right batch 1) (hsound.inv.gave x hx)
  have htold : ((p.tellMany source calls).2.log.flatMap news) = _ :=
    hsound.told_eq.symm
  rw [htold] at hnews
  simp only [List.length_append] at hnews
  omega

/-- A reading ends exactly if there will be a final exchange. -/
theorem exists_drained_iff :
    (∃ items q, Drained (·.next source.recorded) p items q) ↔
      ∃ n, ∃ x ∈ (p.tellMany source (.replicate n .next)).2.log,
        x.IsFinal DeviceRecord.isLast := by
  constructor
  · intro hdrains
    obtain ⟨items, q, hdrained⟩ := hdrains
    obtain ⟨n, hn⟩ := hdrained.exists_tells (·.prime source.recorded)
    obtain ⟨hq, hdone, -⟩ := h.drained (lawful source batch)
      ((paging_next source).symm ▸ hdrained)
    refine ⟨n, ?_⟩
    rw [tellMany, hn]
    exact (over_iff_final hq.dialogue).1 (hq.ended hdone)
  · intro hends
    obtain ⟨n, x, hx, hfinal⟩ := hends
    have hsound := sound_tellMany h (.replicate n .next)
    let most := (p.tellMany source (.replicate n .next)).2.log.length
      * max batch 1
    rcases drained_or_told (·.prime source.recorded)
      (·.next source.recorded) (n + (most + 1)) p with hdrained | htold
    · exact hdrained
    · -- so many calls would have told more than the exchanges have brought
      have hlog := log_tellMany hsound hx hfinal (.replicate (most + 1) .next)
      have hle := length_tellMany_le h (.replicate (n + (most + 1)) .next)
      rw [tellMany, htold, List.replicate_add, tells_append, hlog] at hle
      omega

/-- A reading ends, or is given an answer whose final record does not lie
past the low key, in whatever order of the records. -/
theorem exists_drained_or_stuck
    {past : DeviceRecord → DeviceRecord → Prop}
    (horder : IsStrictOrder DeviceRecord past) :
    (∃ items q, Drained (·.next source.recorded) p items q) ∨
      ∃ n, ∃ x ∈ (p.tellMany source (.replicate n .next)).2.log,
        ∃ tail, onward x = some tail ∧ ¬ past tail x.request := by
  rw [or_iff_not_imp_right]
  intro hadvancing
  apply exists_drained_of_bounded (·.prime source.recorded)
  intro n
  have hsound := sound_tellMany h (.replicate n .next)
  have hfew := length_le_of_advancing horder hsound.dialogue
    fun x hx tail htail => by
      by_contra hstuck
      exact hadvancing ⟨n, x, hx, tail, htail, hstuck⟩
  exact (length_tellMany_le h (.replicate n .next)).trans
    (Nat.mul_le_mul_right _ hfew)

end Pager

/-- However a pager is called and whatever its source answers: its first
request begins at the lowest key and each other one at the final record of
the answer before it, an exchange is final only if no other one comes after
it, and after a final one no call makes another request. So whoever goes on
asking gets to the end exactly if an answer is final some time. In whatever
order of the records, this happens unless some answer does not get past the
low key of its request. -/
theorem reading_ends (source : DeviceSource σ) (batch : Nat) (s : σ)
    (calls : List PagerCall) :
    let p := ((start batch (s, [])).tellMany source calls).2
    (∀ x ∈ p.log.head?, x.request = .lowest) ∧
    p.log.IsChain (fun x y => ¬ x.IsFinal DeviceRecord.isLast ∧
      ∃ a, x.answer = .ok a ∧ a.held.getLast? = some y.request) ∧
    ((∃ x ∈ p.log, x.IsFinal DeviceRecord.isLast) →
      ∀ more, (p.tellMany source more).2.log = p.log) ∧
    ((∃ items q, Drained (·.next source.recorded) p items q) ↔
      ∃ n, ∃ x ∈ (p.tellMany source (.replicate n .next)).2.log,
        x.IsFinal DeviceRecord.isLast) ∧
    ∀ past : DeviceRecord → DeviceRecord → Prop,
      IsStrictOrder DeviceRecord past →
      (∃ items q, Drained (·.next source.recorded) p items q) ∨
      ∃ n, ∃ x ∈ (p.tellMany source (.replicate n .next)).2.log,
        ¬ x.IsFinal DeviceRecord.isLast ∧
        ∃ a tail, x.answer = .ok a ∧ a.held.getLast? = some tail ∧
          ¬ past tail x.request := by
  intro p
  have hsound := sound_tellMany (sound_start source batch s) calls
  have hfinal : ∀ {x tail}, onward x = some tail →
      ¬ x.IsFinal DeviceRecord.isLast := by
    intro x tail htail hfinal
    cases (onward_eq_none_iff.2 hfinal).symm.trans htail
  refine ⟨?_, ?_, ?_, exists_drained_iff hsound, ?_⟩
  · intro x hx
    exact (Option.some_inj.1 (hsound.dialogue.first x hx)).symm
  · apply hsound.dialogue.chain.imp
    intro x y hxy
    have honward : onward x = some y.request := by
      simpa [paging, Option.bind_fun_some] using hxy
    exact ⟨hfinal honward, (onward_eq_some honward).2⟩
  · intro hends
    obtain ⟨x, hx, hlast⟩ := hends
    exact log_tellMany hsound hx hlast
  · -- with an order that every answer follows the low keys would be distinct,
    -- and there are only so many records
    intro past horder
    rcases exists_drained_or_stuck hsound horder with hdrained | hstuck
    · exact .inl hdrained
    · obtain ⟨n, x, hx, tail, honward, hstuck⟩ := hstuck
      obtain ⟨-, a, hanswer, htail⟩ := onward_eq_some honward
      exact .inr ⟨n, x, hx, hfinal honward, a, tail, hanswer, htail, hstuck⟩

-- ============================================================ repetition

/-- A device that answers every request with the same record. -/
def repeating (r : DeviceRecord) : DeviceSource Unit where
  answer b s := (.ok ((b.fill 0 [r]).setClaimed 1), s)

/-- A device that repeats one record holds it once in each answer, however
large the buffer is. -/
theorem held_of_gave {r : DeviceRecord} {capacity : Nat}
    (hroom : 1 ≤ capacity) {x : DeviceExchange}
    (h : Gave (repeating r) capacity x) :
    ∃ a, x.answer = .ok a ∧ a.held = [r] := by
  obtain ⟨s, hanswer⟩ := h
  refine ⟨_, hanswer, ?_⟩
  have hroom : [r].length ≤ capacity := hroom
  have hcount : [r].length < UInt32.size :=
    show 1 < UInt32.size by decide
  have hfill := DeviceBuffer.answered_fill
    (DeviceBuffer.prepare capacity x.request .highest) hroom hcount
  rw [DeviceBuffer.answered_eq_held] at hfill
  exact hfill

section Repeating

variable {r : DeviceRecord} (hlast : r.isLast = false) (batch : Nat)
  (s : Unit)

include hlast

/-- Each exchange brings the record, and is not final. -/
theorem news_of_repeating {x : DeviceExchange}
    (h : Gave (repeating r) (max batch 1) x) :
    news x = [.ok r] ∧ ¬ x.IsFinal DeviceRecord.isLast := by
  obtain ⟨a, hanswer, hheld⟩ := held_of_gave (Nat.le_max_right batch 1) h
  constructor
  · simp [news, Exchange.news, hanswer, Answer.shown, hheld, hlast]
  · intro hfinal
    cases hfinal with
    | failed h => cases hanswer.symm.trans h
    | empty h hnone =>
      obtain rfl := Except.ok.inj (hanswer.symm.trans h)
      simp [hheld] at hnone
    | marked h he hismark =>
      obtain rfl := Except.ok.inj (hanswer.symm.trans h)
      rw [hheld, List.mem_singleton] at he
      simp [he, hlast] at hismark

theorem not_drained_repeating :
    ¬ ∃ items q, Drained (·.next (repeating r).recorded)
      (start batch (s, [])) items q := by
  have hstart := sound_start (repeating r) batch s
  rw [exists_drained_iff hstart]
  intro hends
  obtain ⟨n, x, hx, hfinal⟩ := hends
  have hsound := sound_tellMany hstart (.replicate n .next)
  exact (news_of_repeating hlast batch (hsound.inv.gave x hx)).2 hfinal

/-- A device that gives the same record again and again is read for ever:
whoever goes on asking gets the record every time, by more and more
requests. -/
theorem endless_repeating (n : Nat) :
    let p : DevicePager (Unit × List DeviceExchange) := start batch (s, [])
    (p.tellMany (repeating r) (.replicate n .next)).1
        = .replicate n (.ok r) ∧
      n ≤ (p.tellMany (repeating r) (.replicate n .next)).2.log.length := by
  intro p
  have hsound := sound_tellMany (sound_start (repeating r) batch s)
    (.replicate n .next)
  have hlength := (drained_or_told (·.prime (repeating r).recorded)
    (·.next (repeating r).recorded) n p).resolve_left
      (not_drained_repeating hlast batch s)
  have hnews : ∀ x ∈ (p.tellMany (repeating r) (.replicate n .next)).2.log,
      news x = [.ok r] :=
    fun x hx => (news_of_repeating hlast batch (hsound.inv.gave x hx)).1
  have htold : (p.tellMany (repeating r) (.replicate n .next)).1 ++ _
      = (p.tellMany (repeating r) (.replicate n .next)).2.log.flatMap news :=
    hsound.told_eq
  rw [List.flatMap_congr hnews, ← List.map_eq_flatMap, List.map_const',
    List.append_eq_replicate_iff, hlength] at htold
  exact ⟨htold.2.1, by omega⟩

end Repeating

/-- A device whose one page is never the last: the same record comes again,
though it does not get past its own key, and is asked for once more. -/
theorem onePage_endless :
    let stuck : DeviceRecord := ⟨0x801, ⟨0⟩, 4096, 12, 0, 4096⟩
    (¬ ∃ items q, Drained (DevicePager.next (repeating stuck).recorded)
      (start 1 ((), [])) items q) ∧
    (readScriptedDevice 1 [{ rows := [stuck] }, { rows := [stuck] }]).trace
      = [.ask .lowest, .give stuck, .ask stuck, .give stuck, .ask stuck] := by
  refine ⟨not_drained_repeating (by decide) 1 (), ?_⟩
  decide +kernel

end DevicePager

end DiskAtlas.Mapping

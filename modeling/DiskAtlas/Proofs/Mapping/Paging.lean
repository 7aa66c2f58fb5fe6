/-
Pagers of any kind. A pager keeps the records of its last answer, hands
them out one by one and makes the next request when there are none left
(`Paging`). It is called again and again, for its next record or to make
its first request early; what holds of it from call to call holds after all
calls (`tells_induction`), and whoever goes on asking until there is
nothing left has drained it (`Drained`).

All that a request can come to is said once (`Paging.Fetches`), and what is
true of a pager between two calls follows from it alone (`Paging.Sound`):
its exchanges are a dialogue, what they have brought was told or is kept,
and once they are over no call makes another request
(`Sound.log_tellMany`). The pager of a file and that of a device are two
pagers for which this is so.
-/
import DiskAtlas.Proofs.Mapping.Dialogue

namespace DiskAtlas.Mapping

-- ============================================================ iterating

/-- An iterator is asked until it has nothing left: what it gave, and where
it stands then. -/
inductive Drained {π ι : Type} (next : π → Option ι × π) :
    π → List ι → π → Prop where
  | ended {p q : π} (h : next p = (none, q)) : Drained next p [] q
  | more {p p' q : π} {item : ι} {items : List ι}
      (h : next p = (some item, p')) (rest : Drained next p' items q) :
      Drained next p (item :: items) q

/-- Two iterators that answer the same now are the same from now on. -/
theorem Drained.congr {π ι : Type} {next : π → Option ι × π} {p p' q : π}
    {items : List ι} (h : Drained next p items q) (heq : next p' = next p) :
    Drained next p' items q := by
  cases h with
  | ended hnext => exact .ended (heq.trans hnext)
  | more hnext rest => exact .more (heq.trans hnext) rest

-- ================================================================ calls

/-- What can be asked of a pager: to make its first request now, or for its
next record. -/
inductive PagerCall where
  | prime
  | next

section Calls

variable {π α : Type} (prime : π → Except Error Unit × π)
  (next : π → Option (Except Error α) × π)

/-- One call of a pager, and what it tells: a record, a failure or
nothing. -/
def tell : PagerCall → π → Option (Except Error α) × π
  | .next, p => next p
  | .prime, p =>
    match prime p with
    | (.ok (), p) => (none, p)
    | (.error e, p) => (some (.error e), p)

/-- Some calls of a pager, and all that they tell. -/
def tells : List PagerCall → π → List (Except Error α) × π
  | [], p => ([], p)
  | call :: calls, p =>
    let (told, p) := tell prime next call p
    let (more, p) := tells calls p
    (told.toList ++ more, p)

/-- What each call keeps, all calls keep. -/
theorem tells_induction (Inv : π → List (Except Error α) → Prop)
    (step : ∀ call p told, Inv p told →
      Inv (tell prime next call p).2
        (told ++ (tell prime next call p).1.toList)) :
    ∀ calls p told, Inv p told →
      Inv (tells prime next calls p).2
        (told ++ (tells prime next calls p).1) := by
  intro calls
  induction calls with
  | nil =>
    intro p told h
    simpa [tells] using h
  | cons call calls ih =>
    intro p told h
    have hstep := step call p told h
    have hrest := ih _ _ hstep
    simpa only [tells, List.append_assoc] using hrest

theorem tells_append (calls more : List PagerCall) (p : π) :
    (tells prime next (calls ++ more) p).2
      = (tells prime next more (tells prime next calls p).2).2 := by
  induction calls generalizing p with
  | nil => rfl
  | cons call calls ih => exact ih _

/-- Whoever asks for records some times gets to the end, or is told
something every time. -/
theorem drained_or_told (n : Nat) :
    ∀ p, (∃ items q, Drained next p items q) ∨
      (tells prime next (.replicate n .next) p).1.length = n := by
  induction n with
  | zero => exact fun p => .inr rfl
  | succ n ih =>
    intro p
    rcases hnext : next p with ⟨_ | item, q⟩
    · exact .inl ⟨[], q, .ended hnext⟩
    · rcases ih q with ⟨items, q', hdrained⟩ | htold
      · exact .inl ⟨item :: items, q', .more hnext hdrained⟩
      · right
        simp [List.replicate_succ, tells, tell, hnext, htold]

/-- An iterator that tells no more than so much is drained in the end. -/
theorem exists_drained_of_bounded {p : π} {most : Nat}
    (h : ∀ n, (tells prime next (.replicate n .next) p).1.length ≤ most) :
    ∃ items q, Drained next p items q := by
  rcases drained_or_told prime next (most + 1) p with hdrained | htold
  · exact hdrained
  · have hle := h (most + 1)
    omega

/-- To drain a pager is to ask for its next record some times. -/
theorem Drained.exists_tells {p q : π} {items : List (Except Error α)}
    (h : Drained next p items q) :
    ∃ n, (tells prime next (.replicate n .next) p).2 = q := by
  induction h with
  | @ended p q hnext =>
    refine ⟨1, ?_⟩
    simp [tells, tell, hnext]
  | more hnext _ ih =>
    obtain ⟨n, hn⟩ := ih
    refine ⟨n + 1, ?_⟩
    simp [List.replicate_succ, tells, tell, hnext, hn]

end Calls

-- =============================================================== pagers

/-- A pager of records `α`, which asks its source for `ρ` from positions
`κ` on. -/
structure Paging (π κ ρ α : Type) where
  /-- Makes the next request. -/
  fetch : π → Except Error Unit × π
  /-- Records that have come and are not handed out yet. -/
  pending : π → List α
  /-- The pager with other records to hand out. -/
  keep : π → List α → π
  /-- Was there a request already? -/
  fetched : π → Bool
  /-- Will there be no other request? -/
  done : π → Bool
  /-- The exchanges so far. -/
  log : π → List (Exchange ρ α)
  /-- Where the next request begins. -/
  position : π → κ
  /-- Where the first request begins. -/
  start : κ
  /-- The request for what begins at a position, if anything does. -/
  asks : κ → Option ρ
  /-- Where an exchange leads, if it leads anywhere. -/
  onward : Exchange ρ α → Option κ
  /-- What an exchange brings: records or a failure. -/
  news : Exchange ρ α → List (Except Error α)

namespace Paging

variable {π κ ρ α : Type} (g : Paging π κ ρ α)

def prime (p : π) : Except Error Unit × π :=
  if g.fetched p || g.done p then (.ok (), p) else g.fetch p

def pop (p : π) : Option (Except Error α) × π :=
  match g.pending p with
  | [] => (none, p)
  | a :: rest => (some (.ok a), g.keep p rest)

def next (p : π) : Option (Except Error α) × π :=
  if (g.pending p).isEmpty && !g.done p then
    match g.fetch p with
    | (.error e, p) => (some (.error e), p)
    | (.ok (), p) => g.pop p
  else g.pop p

/-- Where the exchanges of a pager have led. -/
def ahead (p : π) : Option κ := Mapping.ahead g.onward g.start (g.log p)

/-- What a request may come to: there was nothing left to ask for, or there
is one more exchange, which failed or brought a page. -/
inductive Fetches (p : π) : Except Error Unit × π → Prop where
  | past {q : π} (nothing : g.asks (g.position p) = none)
      (log : g.log q = g.log p) (pending : g.pending q = g.pending p)
      (fetched : g.fetched q = true) (done : g.done q = true) :
      Fetches p (.ok (), q)
  | failed {q : π} {x : Exchange ρ α} {e : Error}
      (asked : g.asks (g.position p) = some x.request)
      (onward : g.onward x = none) (news : g.news x = [.error e])
      (log : g.log q = g.log p ++ [x])
      (pending : g.pending q = g.pending p)
      (fetched : g.fetched q = true) (done : g.done q = true) :
      Fetches p (.error e, q)
  | answered {q : π} {x : Exchange ρ α} {page : List α}
      (asked : g.asks (g.position p) = some x.request)
      (onward : page = [] → g.onward x = none)
      (news : g.news x = page.map .ok) (log : g.log q = g.log p ++ [x])
      (pending : g.pending q = g.pending p ++ page)
      (fetched : g.fetched q = true)
      (done : g.done q = (g.onward x).isNone)
      (position : ∀ k, g.onward x = some k → g.position q = k) :
      Fetches p (.ok (), q)

/-- The requests of a pager come to what requests may come to, as long as
`Inv` holds of it, and handing records out changes nothing else. -/
structure Lawful (Inv : π → Prop) : Prop where
  fetches : ∀ p, Inv p → g.done p = false → Fetches g p (g.fetch p)
  inv_fetch : ∀ p, Inv p → g.done p = false → Inv (g.fetch p).2
  inv_keep : ∀ p records, Inv p → Inv (g.keep p records)
  pending_keep : ∀ p records, g.pending (g.keep p records) = records
  fetched_keep : ∀ p records, g.fetched (g.keep p records) = g.fetched p
  done_keep : ∀ p records, g.done (g.keep p records) = g.done p
  log_keep : ∀ p records, g.log (g.keep p records) = g.log p
  position_keep : ∀ p records,
    g.position (g.keep p records) = g.position p

/-- What is true of a pager between two calls, when the calls so far have
told `told`: its exchanges are a dialogue, the next request continues it
unless it is over, and whatever the exchanges have brought was told or is
kept. -/
structure Sound (Inv : π → Prop) (p : π) (told : List (Except Error α)) :
    Prop where
  inv : Inv p
  dialogue : Dialogue g.asks g.onward g.start (g.log p)
  next_eq : g.done p = false → g.ahead p = some (g.position p)
  ended : g.done p = true → (g.ahead p).bind g.asks = none
  unasked : g.fetched p = false → g.log p = []
  told_eq : told ++ (g.pending p).map .ok = (g.log p).flatMap g.news

variable {g}

/-- A request that is one more exchange and brings a page, which is empty
if the exchange fails. -/
theorem Fetches.of_exchange {p q : π} {x : Exchange ρ α} {page : List α}
    (asked : g.asks (g.position p) = some x.request)
    (onward : page = [] → g.onward x = none)
    (news : match x.answer with
      | .error e => page = [] ∧ g.news x = [.error e]
      | .ok _ => g.news x = page.map .ok)
    (log : g.log q = g.log p ++ [x])
    (pending : g.pending q = g.pending p ++ page)
    (fetched : g.fetched q = true)
    (done : g.done q = (g.onward x).isNone)
    (position : ∀ k, g.onward x = some k → g.position q = k) :
    Fetches g p (x.answer.map fun _ => (), q) := by
  cases hanswer : x.answer with
  | error e =>
    rw [hanswer] at news
    obtain ⟨rfl, hnews⟩ := news
    refine .failed asked (onward rfl) hnews log ?_ fetched ?_
    · rw [pending, List.append_nil]
    · rw [done, onward rfl]
      rfl
  | ok a =>
    rw [hanswer] at news
    exact .answered asked onward news log pending fetched done position

/-- What lies ahead of a pager depends on its exchanges only. -/
theorem ahead_of_log {p q : π} (h : g.log q = g.log p) :
    g.ahead q = g.ahead p := by
  rw [ahead, ahead, h]

theorem ahead_of_snoc {p q : π} {x : Exchange ρ α}
    (h : g.log q = g.log p ++ [x]) : g.ahead q = g.onward x := by
  rw [ahead, h, ahead_snoc]

namespace Sound

variable {Inv : π → Prop} {p : π} {told : List (Except Error α)}

/-- A pager that has asked for nothing yet has nothing to hand out. -/
theorem pending_of_unasked (h : Sound g Inv p told)
    (hnew : g.fetched p = false) : g.pending p = [] := by
  have htold := h.told_eq
  rw [h.unasked hnew, List.flatMap_nil, List.append_eq_nil_iff] at htold
  exact List.map_eq_nil_iff.1 htold.2

/-- The request of a pager that is not done belongs behind its exchanges, so
the dialogue goes on with it. -/
theorem dialogue_snoc (h : Sound g Inv p told) (hopen : g.done p = false)
    {x : Exchange ρ α} (asked : g.asks (g.position p) = some x.request) :
    Dialogue g.asks g.onward g.start (g.log p ++ [x]) := by
  apply h.dialogue.snoc
  have hahead := h.next_eq hopen
  rw [ahead] at hahead
  rw [hahead]
  exact asked

variable (laws : Lawful g Inv)

include laws

/-- A request brings records or the end, or fails and is the end. -/
theorem fetch (h : Sound g Inv p told) (hopen : g.done p = false)
    (hpending : g.pending p = []) :
    match g.fetch p with
    | (.ok (), q) =>
      Sound g Inv q told ∧ (g.pending q = [] → g.done q = true)
    | (.error e, q) => Sound g Inv q (told ++ [.error e]) := by
  have hinv := laws.inv_fetch p h.inv hopen
  have hfetch := laws.fetches p h.inv hopen
  have htold := h.told_eq
  rw [hpending, List.map_nil, List.append_nil] at htold
  -- from here on a fetch is one of the three things that `Fetches` lists
  generalize g.fetch p = result at hinv hfetch ⊢
  cases hfetch with
  | past nothing log pending fetched done =>
    have hover : (g.ahead p).bind g.asks = none := by
      rw [h.next_eq hopen]
      exact nothing
    refine ⟨⟨hinv, ?_, ?_, ?_, ?_, ?_⟩, fun _ => done⟩
    · rw [log]
      exact h.dialogue
    · simp [done]
    · intro _
      rw [ahead_of_log log]
      exact hover
    · simp [fetched]
    · rw [pending, log]
      exact h.told_eq
  | failed asked onward news log pending fetched done =>
    refine ⟨hinv, ?_, ?_, ?_, ?_, ?_⟩
    · rw [log]
      exact h.dialogue_snoc hopen asked
    · simp [done]
    · intro _
      rw [ahead_of_snoc log, onward]
      rfl
    · simp [fetched]
    · rw [pending, hpending, log, htold]
      simp [news]
  | @answered q x page asked onward news log pending fetched done position =>
    refine ⟨⟨hinv, ?_, ?_, ?_, ?_, ?_⟩, ?_⟩
    · rw [log]
      exact h.dialogue_snoc hopen asked
    · intro hmore
      rw [ahead_of_snoc log]
      rw [done] at hmore
      cases hnext : g.onward x with
      | none => simp [hnext] at hmore
      | some k => rw [position k hnext]
    · intro hover
      rw [done, Option.isNone_iff_eq_none] at hover
      rw [ahead_of_snoc log, hover]
      rfl
    · simp [fetched]
    · rw [pending, hpending, log, htold]
      simp [news]
    · intro hnil
      have hpage : page = [] := by
        simpa [pending, hpending] using hnil
      rw [done, onward hpage]
      rfl

/-- The record that is handed out was kept. -/
theorem pop (h : Sound g Inv p told) :
    Sound g Inv (g.pop p).2 (told ++ (g.pop p).1.toList) := by
  unfold Paging.pop
  split
  · simpa using h
  · next a rest hpending =>
    have hlog := laws.log_keep p rest
    have htold := h.told_eq
    rw [hpending] at htold
    refine ⟨laws.inv_keep p rest h.inv, ?_, ?_, ?_, ?_, ?_⟩
    · rw [hlog]
      exact h.dialogue
    · rw [laws.done_keep, ahead_of_log hlog, laws.position_keep]
      exact h.next_eq
    · rw [laws.done_keep, ahead_of_log hlog]
      exact h.ended
    · rw [laws.fetched_keep, hlog]
      exact h.unasked
    · rw [laws.pending_keep, hlog, ← htold]
      simp

/-- What a call tells is what there was to tell. -/
theorem tell (h : Sound g Inv p told) (call : PagerCall) :
    Sound g Inv (tell g.prime g.next call p).2
      (told ++ (tell g.prime g.next call p).1.toList) := by
  cases call with
  | prime =>
    unfold Mapping.tell Paging.prime
    by_cases hasked : g.fetched p || g.done p
    · simpa [hasked] using h
    · simp only [Bool.or_eq_true, not_or, Bool.not_eq_true] at hasked
      have hfetch := h.fetch laws hasked.2 (h.pending_of_unasked hasked.1)
      simp only [hasked, Bool.or_self, Bool.false_eq_true, if_false]
      generalize g.fetch p = result at hfetch ⊢
      rcases result with ⟨_ | _, q⟩
      · exact hfetch
      · simpa using hfetch.1
  | next =>
    show Sound g Inv (g.next p).2 (told ++ (g.next p).1.toList)
    unfold Paging.next
    split
    · next hask =>
      simp only [Bool.and_eq_true, List.isEmpty_iff, Bool.not_eq_true']
        at hask
      have hfetch := h.fetch laws hask.2 hask.1
      generalize g.fetch p = result at hfetch ⊢
      rcases result with ⟨_ | _, q⟩
      · exact hfetch
      · exact hfetch.1.pop laws
    · exact h.pop laws

theorem tellMany (h : Sound g Inv p told) (calls : List PagerCall) :
    Sound g Inv (tells g.prime g.next calls p).2
      (told ++ (tells g.prime g.next calls p).1) :=
  tells_induction _ _ (Sound g Inv) (fun call _ _ hq => hq.tell laws call)
    calls p told h

-- ================================================================= ends

/-- When the requests are over, the next one is not made. -/
theorem fetch_of_over (h : Sound g Inv p told) (hopen : g.done p = false)
    (hover : (g.ahead p).bind g.asks = none) :
    ∃ q, g.fetch p = (.ok (), q) ∧ g.log q = g.log p := by
  have hfetch := laws.fetches p h.inv hopen
  rw [h.next_eq hopen] at hover
  generalize g.fetch p = result at hfetch ⊢
  cases hfetch with
  | @past q _ log => exact ⟨q, rfl, log⟩
  | failed asked => cases hover.symm.trans asked
  | answered asked => cases hover.symm.trans asked

theorem log_pop (p : π) : g.log (g.pop p).2 = g.log p := by
  unfold Paging.pop
  split
  · rfl
  · exact laws.log_keep ..

/-- When the requests are over, a call makes no other one. -/
theorem log_tell (h : Sound g Inv p told)
    (hover : (g.ahead p).bind g.asks = none) (call : PagerCall) :
    g.log (Mapping.tell g.prime g.next call p).2 = g.log p := by
  cases call with
  | prime =>
    unfold Mapping.tell Paging.prime
    by_cases hasked : g.fetched p || g.done p
    · simp [hasked]
    · simp only [Bool.or_eq_true, not_or, Bool.not_eq_true] at hasked
      obtain ⟨q, hfetch, hlog⟩ := h.fetch_of_over laws hasked.2 hover
      simp [hasked, hfetch, hlog]
  | next =>
    show g.log (g.next p).2 = g.log p
    unfold Paging.next
    split
    · next hask =>
      simp only [Bool.and_eq_true, List.isEmpty_iff, Bool.not_eq_true']
        at hask
      obtain ⟨q, hfetch, hlog⟩ := h.fetch_of_over laws hask.2 hover
      rw [hfetch, ← hlog]
      exact log_pop laws q
    · exact log_pop laws p

/-- Once the dialogue is over, no calls make another request. -/
theorem log_tellMany (h : Sound g Inv p told)
    (hover : (g.ahead p).bind g.asks = none) (calls : List PagerCall) :
    g.log (tells g.prime g.next calls p).2 = g.log p := by
  have hkept := tells_induction g.prime g.next
    (fun q told => Sound g Inv q told ∧ g.log q = g.log p)
    (fun call q told hq => by
      refine ⟨hq.1.tell laws call, ?_⟩
      rw [← hq.2]
      apply hq.1.log_tell laws
      rw [ahead_of_log hq.2]
      exact hover)
    calls p told ⟨h, rfl⟩
  exact hkept.2

/-- A pager that tells nothing has handed out all it had, and its requests
are over. -/
theorem done_of_next (h : Sound g Inv p told) {q : π}
    (hnext : g.next p = (none, q)) :
    g.pending q = [] ∧ g.done q = true := by
  have hpop : ∀ p : π, (g.pending p = [] → g.done p = true) →
      g.pop p = (none, q) → g.pending q = [] ∧ g.done q = true := by
    intro p hdone heq
    unfold Paging.pop at heq
    split at heq
    · next hnil =>
      cases heq
      exact ⟨hnil, hdone hnil⟩
    · cases heq
  unfold Paging.next at hnext
  split at hnext
  · next hask =>
    simp only [Bool.and_eq_true, List.isEmpty_iff, Bool.not_eq_true']
      at hask
    have hfetch := h.fetch laws hask.2 hask.1
    generalize g.fetch p = result at hfetch hnext
    rcases result with ⟨_ | _, q'⟩
    · cases hnext
    · exact hpop q' hfetch.2 hnext
  · next hkeep =>
    apply hpop p _ hnext
    intro hnil
    simpa [hnil] using hkeep

/-- A pager that was drained has told all that its exchanges have brought,
its requests are over, and it stays as it is. -/
theorem drained (h : Sound g Inv p told) {items : List (Except Error α)}
    {q : π} (hdrained : Drained g.next p items q) :
    Sound g Inv q (told ++ items) ∧ g.done q = true ∧
      told ++ items = (g.log q).flatMap g.news ∧ g.next q = (none, q) := by
  induction hdrained generalizing told with
  | @ended p q hnext =>
    have hsound := h.tell laws .next
    simp only [Mapping.tell, hnext] at hsound
    obtain ⟨hpending, hdone⟩ := h.done_of_next laws hnext
    refine ⟨hsound, hdone, ?_, ?_⟩
    · simpa [hpending] using hsound.told_eq
    · simp [Paging.next, Paging.pop, hpending, hdone]
  | more hnext _ ih =>
    have hsound := h.tell laws .next
    simp only [Mapping.tell, hnext, Option.toList_some] at hsound
    simpa using ih hsound

end Sound

end Paging

end DiskAtlas.Mapping

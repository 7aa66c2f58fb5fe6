/-
What comes of listening to a trace. The records of the trace are handed
over in their order, and the listener takes each or refuses it; a refusal,
or a failure of the trace, is the end of it. `Reads` says this of the
records and failures alone, and leaves nothing open: which records were
handed over, where the listener stands then and what ended it
(`listen_reads`). The requests made are a front part of those of the
trace.

Joining neighbours holds records back, but it leaves the requests of a
trace as they are (`requests_join`), and the walk over a file asks with
one and the same flags from the first request on
(`flags_of_mem_requests`).
-/
import DiskAtlas.Mapping.Mapper
import DiskAtlas.Proofs.Mapping.FileWalk

namespace DiskAtlas.Mapping

variable {ρ α σ τ : Type}

/-- A listener is given records and failures: which records it was handed,
and the error, if any, that ended it. A record that is refused was handed
over too, and changes nothing. -/
inductive Reads (take : α → τ → Except Error τ) :
    List (Except Error α) → τ → List α → τ → Option Error → Prop where
  | ended (state : τ) : Reads take [] state [] state none
  | failed (e : Error) (items : List (Except Error α)) (state : τ) :
      Reads take (.error e :: items) state [] state (some e)
  | refused {a : α} {state : τ} {e : Error} (items : List (Except Error α))
      (h : take a state = .error e) :
      Reads take (.ok a :: items) state [a] state (some e)
  | taken {a : α} {items : List (Except Error α)} {records : List α}
      {before between after : τ} {stopped : Option Error}
      (h : take a before = .ok between)
      (rest : Reads take items between records after stopped) :
      Reads take (.ok a :: items) before (a :: records) after stopped

namespace Trace

-- ============================================================== requests

theorem requests_ask (r : ρ) (t : Trace ρ α) :
    requests (.ask r :: t) = r :: requests t := rfl

theorem requests_append (t u : Trace ρ α) :
    requests (t ++ u) = requests t ++ requests u :=
  List.filterMap_append

theorem requests_give (records : List α) :
    requests (records.map .give : Trace ρ α) = [] :=
  List.filterMap_eq_nil_iff.2 fun step hstep => by
    obtain ⟨a, -, rfl⟩ := List.mem_map.1 hstep
    rfl

-- ============================================================= listening

/-- Listening to a trace reads its records and failures; if nothing ends
it early, every request was made and every record handed over was taken. -/
theorem listen_reads (take : α → τ → Except Error τ) (trace : Trace ρ α)
    (before : τ) :
    let heard := listen take trace before
    ∃ records, Reads take trace.items before records heard.state
        heard.stopped ∧
      heard.requests <+: trace.requests ∧
      (heard.stopped = none → heard.taken = records.length) := by
  induction trace generalizing before with
  | nil => exact ⟨[], .ended before, List.prefix_rfl, fun _ => rfl⟩
  | cons step rest ih =>
    cases step with
    | ask r =>
      obtain ⟨records, hreads, hasked, htaken⟩ := ih before
      exact ⟨records, hreads, List.cons_prefix_cons.2 ⟨rfl, hasked⟩, htaken⟩
    | fail e =>
      exact ⟨[], .failed e _ before, List.nil_prefix, nofun⟩
    | give a =>
      cases htake : take a before with
      -- the listener refuses, and what follows is not read
      | error e =>
        have hheard : listen take (.give a :: rest) before
            = ⟨[], 0, before, some e⟩ := by
          simp only [listen, htake]
        rw [hheard]
        exact ⟨[a], .refused _ htake, List.nil_prefix, nofun⟩
      | ok between =>
        obtain ⟨records, hreads, hasked, htaken⟩ := ih between
        have hheard : listen take (.give a :: rest) before
            = { listen take rest between with
                taken := (listen take rest between).taken + 1 } := by
          simp only [listen, htake]
        rw [hheard]
        exact ⟨a :: records, .taken htake hreads, hasked,
          fun hended => congrArg (· + 1) (htaken hended)⟩

end Trace

-- =============================================================== joining

/-- Joining asks for nothing and keeps no request from being made. -/
theorem requests_joinFrom (held : Option Held)
    (trace : Trace ρ RawExtent) :
    (joinFrom held trace).requests = trace.requests := by
  induction trace generalizing held with
  | nil => cases held <;> rfl
  | cons step rest ih =>
    cases step with
    | ask r => exact congrArg (r :: ·) (ih held)
    | fail e => cases held <;> exact ih none
    | give e =>
      cases held with
      | none => exact ih _
      | some h =>
        rw [joinFrom]
        split
        · exact ih _
        · exact ih _

/-- Joining records makes no requests and leaves none out. -/
theorem requests_join (trace : Trace ρ RawExtent) :
    (join trace).requests = trace.requests :=
  requests_joinFrom none trace

-- ================================================================ asking

section Asking

variable (source : FileSource σ) (capacity : Nat) (flags : UInt32)
  {start stop : UInt64} (s : σ)

/-- A walk whose first request fails asks for nothing else. -/
theorem walkFile_error {e : Error} {s' : σ} (h : start < stop)
    (hanswer : source.answer (FileBuffer.prepare capacity
      ⟨start, stop - start, flags⟩) s = (.error e, s')) :
    walkFile source capacity flags start stop s
      = ([.ask ⟨start, stop - start, flags⟩, .fail e], s') := by
  rw [walkFile, dif_pos h]
  simp only [hanswer]

/-- A walk whose first request is answered gives the records of the page
and goes on behind them, if there are any. -/
theorem walkFile_ok {buffer : FileBuffer capacity} {s' : σ}
    (h : start < stop)
    (hanswer : source.answer (FileBuffer.prepare capacity
      ⟨start, stop - start, flags⟩) s = (.ok buffer, s')) :
    ∃ (page : List RawExtent) (more : Trace FileRequest RawExtent),
      (walkFile source capacity flags start stop s).1
        = .ask ⟨start, stop - start, flags⟩ :: (page.map .give ++ more) ∧
      (more = [] ∨ page ≠ [] ∧ ∃ next, start < next ∧
        more = (walkFile source capacity flags next stop s').1) := by
  have hgiven : ∀ page : List RawExtent,
      page.map (fun e => (.give e.clearLast : Step FileRequest RawExtent))
        = (page.map (·.clearLast)).map .give := by
    intro page
    rw [List.map_map]
    rfl
  rw [walkFile, dif_pos h]
  simp only [hanswer]
  split <;> rename_i hnext
  · exact ⟨_, [], congrArg _ ((hgiven _).trans (List.append_nil _).symm),
      .inl rfl⟩
  · refine ⟨_, _, congrArg _ (congrArg (· ++ _) (hgiven _)), .inr ⟨?_, ?_⟩⟩
    · intro hnil
      rw [List.map_eq_nil_iff.1 hnil] at hnext
      cases hnext
    · exact ⟨_, lt_of_nextStart hnext, rfl⟩

/-- A walk that has anywhere to go begins with its first request. -/
theorem walkFile_asks (h : start < stop) :
    ∃ more, (walkFile source capacity flags start stop s).1
      = .ask ⟨start, stop - start, flags⟩ :: more := by
  cases hanswer : source.answer (FileBuffer.prepare capacity
    ⟨start, stop - start, flags⟩) s with
  | mk answer s' =>
    cases answer with
    | error e =>
      rw [walkFile_error source capacity flags s h hanswer]
      exact ⟨_, rfl⟩
    | ok buffer =>
      obtain ⟨page, more, htrace, -⟩ :=
        walkFile_ok source capacity flags s h hanswer
      exact ⟨_, htrace⟩

/-- A first request that is answered is no refusal, whatever fails behind
it. -/
theorem refusal?_walkFile_ok {buffer : FileBuffer capacity} {s' : σ}
    (h : start < stop)
    (hanswer : source.answer (FileBuffer.prepare capacity
      ⟨start, stop - start, flags⟩) s = (.ok buffer, s')) :
    (walkFile source capacity flags start stop s).1.refusal? = none := by
  obtain ⟨page, more, htrace, hmore⟩ :=
    walkFile_ok source capacity flags s h hanswer
  rw [htrace]
  cases page with
  | cons e page => rfl
  | nil =>
    obtain rfl | ⟨hne, -⟩ := hmore
    · rfl
    · exact absurd rfl hne

/-- Every request of a walk has the flags of the walk. -/
theorem flags_of_mem_requests {r : FileRequest}
    (h : r ∈ (walkFile source capacity flags start stop s).1.requests) :
    r.flags = flags := by
  induction hleft : stop.toNat - start.toNat using
    Nat.strong_induction_on generalizing start s with
  | _ left ih =>
  by_cases hlt : start < stop
  swap
  · rw [walkFile_of_le _ _ _ hlt] at h
    cases h
  cases hanswer : source.answer (FileBuffer.prepare capacity
    ⟨start, stop - start, flags⟩) s with
  | mk answer s' =>
    cases answer with
    | error e =>
      rw [walkFile_error source capacity flags s hlt hanswer] at h
      rw [List.mem_singleton.1 h]
    | ok buffer =>
      obtain ⟨page, more, htrace, hmore⟩ :=
        walkFile_ok source capacity flags s hlt hanswer
      rw [htrace, Trace.requests_ask, Trace.requests_append,
        Trace.requests_give, List.nil_append] at h
      rcases List.mem_cons.1 h with rfl | h
      · rfl
      · obtain rfl | ⟨-, next, hgrows, rfl⟩ := hmore
        · cases h
        · have hltNat := UInt64.lt_iff_toNat_lt.1 hlt
          have hgrowsNat := UInt64.lt_iff_toNat_lt.1 hgrows
          exact ih _ (by omega) s' h rfl

end Asking

end DiskAtlas.Mapping

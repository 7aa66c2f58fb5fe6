/-
What happens while a map is read. A map arrives in pieces: the reader asks
its source for a piece, hands out the records of it one at a time and asks
again when they are used up. A `Trace` lists these events in the order in
which they happen, so that whoever stops listening at some record has
caused exactly the requests before it.
-/
import DiskAtlas.Error

namespace DiskAtlas.Mapping

/-- One event while a map with requests `ρ` and records `α` is read. -/
inductive Step (ρ α : Type) where
  /-- The source is asked for a piece of the map. -/
  | ask (request : ρ)
  /-- A record is handed out. -/
  | give (record : α)
  /-- A request failed. -/
  | fail (error : Error)
  deriving Repr, DecidableEq

/-- The events of reading a map, in order. -/
abbrev Trace (ρ α : Type) := List (Step ρ α)

namespace Trace

variable {ρ α β τ : Type}

def requests (trace : Trace ρ α) : List ρ :=
  trace.filterMap fun
    | .ask r => some r
    | _ => none

/-- What the listener gets: records and errors. -/
def items (trace : Trace ρ α) : List (Except Error α) :=
  trace.filterMap fun
    | .ask _ => none
    | .give a => some (.ok a)
    | .fail e => some (.error e)

/-- The error of the very first request, if it failed. -/
def refusal? : Trace ρ α → Option Error
  | .ask _ :: .fail e :: _ => some e
  | _ => none

/-- The trace up to and with its first `n` items. -/
def upToItem : (n : Nat) → Trace ρ α → Trace ρ α
  | 0, _ => []
  | _, [] => []
  | n + 1, .ask r :: rest => .ask r :: upToItem (n + 1) rest
  | n + 1, step :: rest => step :: upToItem n rest

-- ========================================================= listening

/-- What came of listening to a trace. -/
structure Heard (ρ τ : Type) where
  requests : List ρ
  /-- How many records were taken. -/
  taken : Nat
  state : τ
  /-- The error that ended it early. -/
  stopped : Option Error

/-- Hands every record to `take`, which may refuse; an error, from the
source or from `take`, ends it there. -/
def listen (take : α → τ → Except Error τ) : Trace ρ α → τ → Heard ρ τ
  | [], state => ⟨[], 0, state, none⟩
  | .ask r :: rest, state =>
    let heard := listen take rest state
    { heard with requests := r :: heard.requests }
  | .fail e :: _, state => ⟨[], 0, state, some e⟩
  | .give a :: rest, state =>
    match take a state with
    | .error e => ⟨[], 0, state, some e⟩
    | .ok state =>
      let heard := listen take rest state
      { heard with taken := heard.taken + 1 }

end Trace

-- ============================================================= pages

/-- The records of a page up to the first that says it is the last. -/
def cutAfter {α : Type} (isLast : α → Bool) : List α → List α
  | [] => []
  | a :: rest => if isLast a then [a] else a :: cutAfter isLast rest

end DiskAtlas.Mapping

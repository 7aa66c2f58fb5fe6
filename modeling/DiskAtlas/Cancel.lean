/-
Calling off long work. A token is a handle on a switch, or on none; all
copies of a token hold the same switch, and a switch once thrown stays
thrown. Loops over many rows look at the switch only now and then.
-/

namespace DiskAtlas

/-- A handle on a switch; `noop` can never be thrown. -/
inductive CancelToken where
  | noop
  | live (switch : Nat)
  deriving Repr, DecidableEq

/-- The switches that exist; `true` means thrown. -/
structure Switches where
  thrown : List Bool := []
  deriving Repr, DecidableEq

/-- How many rows a loop handles between two looks at its switch. -/
def checkInterval : Nat := 4096

namespace Switches

/-- A token on a switch of its own. -/
def fresh (s : Switches) : CancelToken × Switches :=
  (.live s.thrown.length, ⟨s.thrown ++ [false]⟩)

def cancel (s : Switches) : CancelToken → Switches
  | .noop => s
  | .live i => ⟨s.thrown.set i true⟩

def isCancelled (s : Switches) : CancelToken → Bool
  | .noop => false
  | .live i => s.thrown.getD i false

/-- The same question, asked only at every `checkInterval`-th row. -/
def isCancelledAt (s : Switches) (token : CancelToken) (row : Nat) : Bool :=
  row % checkInterval == 0 && s.isCancelled token

/-- A thrown switch is seen through every token on it. -/
theorem isCancelled_cancel {s : Switches} {i : Nat}
    (h : i < s.thrown.length) :
    (s.cancel (.live i)).isCancelled (.live i) = true := by
  simp [cancel, isCancelled, List.getD_eq_getElem?_getD, h]

end Switches

end DiskAtlas

/-
Where the tables of a store live between runs. A backend gives back what
was saved last and takes a new state in its place; a save may fail, and it
always fails on a backend that was opened for reading only. `Vault` is a
backend in memory, with saves that can be made to fail by their number.
-/
import DiskAtlas.Error
import DiskAtlas.Settings
import DiskAtlas.Store.Tables

namespace DiskAtlas

/-- What a store needs of the place where its tables live. -/
class Backend (β : Type) where
  /-- What is held; nothing if nothing usable was saved. -/
  load : β → Except Error (Option Persisted)
  /-- Puts a new state in place of what is held. -/
  save : Persisted → β → Except Error Unit × β
  isWritable : β → Bool
  location : β → String

/-- A place in memory. -/
structure Vault where
  access : Access := .readWrite
  held : Option Persisted := none
  /-- Saves that were tried. -/
  attempts : Nat := 0
  /-- The numbers of the saves that fail, counted from one. -/
  failing : List Nat := []
  /-- The error of every load, if loads fail. -/
  loadError : Option Error := none

namespace Vault

def name : String := "memory"

/-- A save, which counts as tried unless the place is read-only. -/
def save (state : Persisted) (v : Vault) : Except Error Unit × Vault :=
  match v.access with
  | .readOnly => (.error (.notWritable name), v)
  | .readWrite =>
    let v := { v with attempts := v.attempts + 1 }
    if v.failing.contains v.attempts then
      (.error (.system .inputOutput), v)
    else (.ok (), { v with held := some state })

def load (v : Vault) : Except Error (Option Persisted) :=
  match v.loadError with
  | some e => .error e
  | none => .ok v.held

instance : Backend Vault where
  load := load
  save := save
  isWritable v := v.access == .readWrite
  location _ := name

end Vault

end DiskAtlas

/-
The shape of a file system that is written down as a value. A node is an
entry of a directory with everything below it. Directories hold their
entries; everything else is a number, under which the object itself is
kept elsewhere, so that several names can stand for one object.
-/

namespace DiskAtlas.Image

/-- A name as the file system keeps it, which need not be text. -/
abbrev Name := List UInt8

/-- An object that is no directory. -/
inductive Leaf where
  | file (size : UInt64)
  | symlink (target : Name)
  | pipe
  | socket
  deriving Repr, DecidableEq, Inhabited

/-- An entry of a directory and everything below it. -/
inductive Node where
  | leaf (name : Name) (number : Nat)
  | directory (name : Name) (number : Nat) (entries : List Node)
  deriving Repr, Inhabited

namespace Node

def name : Node → Name
  | leaf name _ => name
  | directory name .. => name

/-- The number of the object that an entry stands for. -/
def number : Node → Nat
  | leaf _ number => number
  | directory _ number _ => number

def isDirectory : Node → Bool
  | leaf .. => false
  | directory .. => true

/-- The entry of a directory with a name. -/
def entry? (name : Name) : Node → Option Node
  | leaf .. => none
  | directory _ _ entries => entries.find? (·.name == name)

/-- The node that some names lead to, each an entry of the one before. -/
def at? : List Name → Node → Option Node
  | [], n => some n
  | name :: rest, n =>
    match n.entry? name with
    | none => none
    | some child => at? rest child

/-- Changes the entries of the directory that some names lead to. -/
def changeAt (f : List Node → List Node) : List Name → Node → Node
  | _, leaf name number => leaf name number
  | [], directory name number entries => directory name number (f entries)
  | step :: rest, directory name number entries =>
    directory name number <| entries.map fun e =>
      if e.name == step then changeAt f rest e else e

/-- Puts an entry among others, unless there is one with its name. -/
def addTo (new : Node) (entries : List Node) : List Node :=
  if entries.any (·.name == new.name) then entries else entries ++ [new]

end Node

end DiskAtlas.Image

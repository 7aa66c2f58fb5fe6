/-
A file system as a walk meets it. A tree is an entry of a directory with
everything below it: what the entry is, how the map of its extents can be
read, and the entries in it. An entry whose facts cannot be read is lost.

A walk stays on one device and keeps to the kinds of object that a store
has rows for. What it has come to and not visited yet waits for it. When a
directory is visited, what it goes to in there is sorted by name and waits
from then on.
-/
import DiskAtlas.Mapping.Mapper

namespace DiskAtlas.Scan

open Mapping

/-- How the maps of an object are read. -/
structure Reading (σ : Type) where
  file : FileSource σ
  blocks : BlockSource σ
  state : σ

/-- What can be told about an object without going into it. -/
structure Facts (σ : Type) where
  device : UInt64
  /-- Absent for a kind of object that has no row. -/
  inode : Option Inode
  /-- Absent if the object cannot be opened. -/
  reading : Option (Reading σ)
  /-- Can its entries be listed? -/
  listable : Bool := true

/-- An entry of a directory and everything below it. -/
inductive Tree (σ : Type) where
  | lost (name : String)
  | object (name : String) (facts : Facts σ) (entries : List (Tree σ))

namespace Tree

variable {σ : Type}

def name : Tree σ → String
  | lost name => name
  | object name .. => name

/-- The inode of an entry that a walk of a device goes to. -/
def inodeOn (device : UInt64) : Tree σ → Option Inode
  | lost _ => none
  | object _ facts _ => if facts.device = device then facts.inode else none

/-- Are the facts of the entry unknown? -/
def isLost : Tree σ → Bool
  | lost _ => true
  | object .. => false

mutual

/-- How many entries there are, the one at the top included. -/
def size : Tree σ → Nat
  | lost _ => 1
  | object _ _ entries => sizeOfAll entries + 1

def sizeOfAll : List (Tree σ) → Nat
  | [] => 0
  | t :: rest => t.size + sizeOfAll rest

end

end Tree

-- ============================================================== pending

/-- A visit to one object. -/
structure Visit (σ : Type) where
  path : String
  inode : Inode
  reading : Option (Reading σ)
  /-- The names in it, if it is a directory. -/
  names : List (String × Int64)
  /-- How many of its entries could not be told about; one if the entries
  could not be listed at all. -/
  failures : Nat

def childPath (separator : Char) (path name : String) : String :=
  path ++ separator.toString ++ name

/-- What has names in the order of the names. -/
def sortedByName {α : Type} (named : List (String × α)) :
    List (String × α) :=
  named.mergeSort fun a b => decide (a.1 ≤ b.1)

/-- An object that waits for its visit. -/
structure Pending (σ : Type) where
  path : String
  inode : Inode
  facts : Facts σ
  entries : List (Tree σ)

/-- An entry as it waits for its visit, if a walk of the device goes to
it. -/
def Tree.pending? {σ : Type} (device : UInt64) (path : String) :
    Tree σ → Option (Pending σ)
  | .lost _ => none
  | .object name facts entries =>
    ((Tree.object name facts entries).inodeOn device).map fun inode =>
      ⟨path, inode, facts, entries⟩

namespace Pending

variable {σ : Type} (device : UInt64) (separator : Char)

def isDirectory (p : Pending σ) : Bool := p.inode.kind == .directory

/-- What a walk goes to of the entries, each under its name. -/
def found (p : Pending σ) : List (String × Pending σ) :=
  p.entries.filterMap fun t =>
    (t.pending? device (childPath separator p.path t.name)).map (t.name, ·)

/-- What a walk goes to in a directory, in the order of the names. -/
def children (p : Pending σ) : List (String × Pending σ) :=
  if p.isDirectory && p.facts.listable then
    sortedByName (p.found device separator)
  else []

/-- How often reading a directory fails: once for each entry that cannot be
told about, or once for all of them. -/
def failures (p : Pending σ) : Nat :=
  if !p.isDirectory then 0
  else if p.facts.listable then p.entries.countP Tree.isLost
  else 1

def visit (p : Pending σ) : Visit σ where
  path := p.path
  inode := p.inode
  reading := p.facts.reading
  names := (p.children device separator).map fun c => (c.1, c.2.inode.ino)
  failures := p.failures

/-- Puts objects on a stack, the last one first, so that the first one comes
to lie on top. -/
def pushAll (children stack : List (Pending σ)) : List (Pending σ) :=
  children.reverse.foldl (fun stack p => p :: stack) stack

/-- The stack behind a visit to the object that was on top of it. -/
def below (p : Pending σ) (rest : List (Pending σ)) : List (Pending σ) :=
  pushAll ((p.children device separator).map (·.2)) rest

theorem pushAll_eq (children stack : List (Pending σ)) :
    pushAll children stack = children ++ stack := by
  simp [pushAll]

-- ================================================================ size

def size (p : Pending σ) : Nat := Tree.sizeOfAll p.entries + 1

/-- How many entries are left for some that wait, with what lies below
them. -/
def sizeOfStack : List (Pending σ) → Nat
  | [] => 0
  | p :: rest => p.size + sizeOfStack rest

theorem sizeOfStack_append (stack rest : List (Pending σ)) :
    sizeOfStack (stack ++ rest) = sizeOfStack stack + sizeOfStack rest := by
  induction stack with
  | nil => exact (Nat.zero_add _).symm
  | cons p stack ih =>
    rw [List.cons_append, sizeOfStack, sizeOfStack, ih, Nat.add_assoc]

/-- The order in which they wait does not matter. -/
theorem sizeOfStack_perm {stack other : List (Pending σ)}
    (h : stack.Perm other) : sizeOfStack stack = sizeOfStack other := by
  induction h with
  | nil => rfl
  | cons p _ ih => rw [sizeOfStack, sizeOfStack, ih]
  | swap p q rest => exact Nat.add_left_comm _ _ _
  | trans _ _ ih ih' => exact ih.trans ih'

variable {device} in
theorem size_of_pending? {t : Tree σ} {path : String} {p : Pending σ}
    (h : t.pending? device path = some p) : p.size = t.size := by
  cases t with
  | lost name => cases h
  | object name facts entries =>
    obtain ⟨inode, -, rfl⟩ := Option.map_eq_some_iff.1 h
    rw [size, Tree.size]

/-- What waits of some entries is not larger than they are. -/
theorem sizeOfStack_filterMap_le (wait : Tree σ → Option (Pending σ))
    (hwait : ∀ t p, wait t = some p → p.size = t.size)
    (entries : List (Tree σ)) :
    sizeOfStack (entries.filterMap wait) ≤ Tree.sizeOfAll entries := by
  induction entries with
  | nil => exact Nat.le_refl 0
  | cons t rest ih =>
    rw [Tree.sizeOfAll, List.filterMap_cons]
    cases ht : wait t with
    | none => exact Nat.le_add_left_of_le ih
    | some p =>
      dsimp only
      rw [sizeOfStack, hwait t p ht]
      exact Nat.add_le_add_left ih _

theorem sizeOfStack_children_le (p : Pending σ) :
    sizeOfStack ((p.children device separator).map (·.2))
      ≤ Tree.sizeOfAll p.entries := by
  unfold children
  split
  · have hsum : ∀ found : List (String × Pending σ),
        sizeOfStack ((sortedByName found).map Prod.snd)
          = sizeOfStack (found.map Prod.snd) := fun found =>
      sizeOfStack_perm ((List.mergeSort_perm found _).map Prod.snd)
    rw [hsum, found, List.map_filterMap]
    refine sizeOfStack_filterMap_le _ (fun t child h => ?_) p.entries
    obtain ⟨_, hfound, rfl⟩ := Option.map_eq_some_iff.1 h
    obtain ⟨child, hchild, rfl⟩ := Option.map_eq_some_iff.1 hfound
    exact size_of_pending? hchild
  · exact Nat.zero_le _

/-- A visit makes the stack smaller. -/
theorem sizeOfStack_below_lt (p : Pending σ) (rest : List (Pending σ)) :
    sizeOfStack (p.below device separator rest) < sizeOfStack (p :: rest) := by
  have hchildren := sizeOfStack_children_le device separator p
  rw [below, pushAll_eq, sizeOfStack_append, sizeOfStack, size]
  omega

end Pending

end DiskAtlas.Scan

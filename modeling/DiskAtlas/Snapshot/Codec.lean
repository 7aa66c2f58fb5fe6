/-
Values as bytes. A codec writes a value and reads it back from the start
of the bytes that follow; whatever comes behind is left for the next
codec. Numbers have no fixed width: seven bits to a byte, the lowest
first, and a set top bit says that more follow. Signed numbers are
numbered 0, -1, 1, -2, …, so that small ones stay short. Whatever has many
parts is written with their number first.
-/
import DiskAtlas.Reader
import DiskAtlas.SortedMap
import DiskAtlas.Text.Utf8

namespace DiskAtlas.Snapshot

open Text

/-- How values of a type are written and read. -/
structure Codec (α : Type) where
  write : α → List UInt8
  read : Reader α

-- ============================================================= numbers

/-- Writes a number in at most `more + 1` bytes. -/
def writeVarint : (more value : Nat) → List UInt8
  | 0, value => [UInt8.ofNat value]
  | more + 1, value =>
    if value < 128 then [UInt8.ofNat value]
    else UInt8.ofNat (value % 128 + 128) :: writeVarint more (value / 128)

/-- Reads a number of at most `more + 1` bytes, of which the last possible
one holds at most `top`. Zeros that a shorter form would leave out are
read all the same. -/
def readVarint (top : Nat) : (more : Nat) → Reader Nat
  | 0 => do
    let b ← readByte
    if b.toNat ≤ top then return b.toNat else failure
  | more + 1 => do
    let b ← readByte
    if b.toNat < 128 then return b.toNat
    let high ← readVarint top more
    return b.toNat - 128 + 128 * high

namespace Codec

/-- A word of 64 bits, in at most ten bytes. -/
def word : Codec UInt64 where
  write v := writeVarint 9 v.toNat
  read := return UInt64.ofNat (← readVarint 1 9)

/-- A word of 32 bits, in at most five bytes. -/
def half : Codec UInt32 where
  write v := writeVarint 4 v.toNat
  read := return UInt32.ofNat (← readVarint 15 4)

/-- The place of a number in 0, -1, 1, -2, …. -/
def zigzag (v : Int) : Nat :=
  if 0 ≤ v then 2 * v.toNat else 2 * (-v - 1).toNat + 1

/-- The number at a place in 0, -1, 1, -2, …. -/
def unzigzag (n : Nat) : Int :=
  if n % 2 = 0 then (n / 2 : Nat) else -((n / 2 : Nat) : Int) - 1

def signed : Codec Int64 where
  write v := writeVarint 9 (zigzag v.toInt)
  read := return Int64.ofInt (unzigzag (← readVarint 1 9))

def count : Codec Nat where
  write n := word.write (UInt64.ofNat n)
  read := return (← word.read).toNat

/-- The bits of a floating-point number, in eight bytes. -/
def floatBits : Codec UInt64 where
  write v := littleEndian 8 v.toNat
  read := return UInt64.ofNat (ofLittleEndian (← readBytes 8))

-- ================================================================ text

def bool : Codec Bool where
  write v := [if v then 1 else 0]
  read := do
    let b ← readByte
    if b = 0 then return false
    else if b = 1 then return true
    else failure

def text : Codec String where
  write s :=
    let bytes := utf8Bytes s
    count.write bytes.length ++ bytes
  read := do
    let bytes ← readBytes (← count.read)
    String.fromUTF8? ⟨bytes.toArray⟩

/-- A character, written as a text of its own. What follows the first
character of that text is passed over. -/
def char : Codec Char where
  write c := text.write c.toString
  read := do
    let n ← count.read
    if n > 4 then failure
    let s ← String.fromUTF8? ⟨(← readBytes n).toArray⟩
    s.toList.head?

-- =============================================================== parts

variable {α β : Type}

def option (c : Codec α) : Codec (Option α) where
  write
    | none => bool.write false
    | some a => bool.write true ++ c.write a
  read := do
    if ← bool.read then return some (← c.read) else return none

def pair (c : Codec α) (d : Codec β) : Codec (α × β) where
  write v := c.write v.1 ++ d.write v.2
  read := return (← c.read, ← d.read)

def readMany (read : Reader α) : (n : Nat) → Reader (List α)
  | 0 => return []
  | n + 1 => return (← read) :: (← readMany read n)

def list (c : Codec α) : Codec (List α) where
  write as := count.write as.length ++ as.flatMap c.write
  read := do readMany c.read (← count.read)

def array (c : Codec α) : Codec (Array α) where
  write as := (list c).write as.toList
  read := return (← (list c).read).toArray

/-- As many values as a vector has, without their number. -/
def vector (n : Nat) (c : Codec α) : Codec (Vector α n) where
  write as := as.toList.flatMap c.write
  read := do
    let as := (← readMany c.read n).toArray
    if h : as.size = n then return ⟨as, h⟩ else failure

/-- A map, as the list of its entries; of entries with one key the last
counts. -/
def map [Ord α] [Std.TransOrd α] [Std.LawfulEqOrd α] (c : Codec α)
    (d : Codec β) : Codec (SortedMap α β) where
  write m := (list (pair c d)).write m.entries
  read := return .ofList (← (list (pair c d)).read)

/-- One of several choices, as its number. -/
def choice (index : α → Nat) (ofIndex? : Nat → Option α) : Codec α where
  write a := half.write (UInt32.ofNat (index a))
  read := do ofIndex? (← half.read).toNat

end Codec

end DiskAtlas.Snapshot

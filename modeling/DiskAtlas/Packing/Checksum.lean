/-
The checksum of packed bytes: four lanes of words are mixed in parallel,
joined, and mixed with what is left over.
-/
import DiskAtlas.Reader

namespace DiskAtlas.Packing.Checksum

-- ============================================================ constants

/-- The five primes of the mixing steps. -/
def prime1 : UInt64 := 11400714785074694791
def prime2 : UInt64 := 14029467366897019727
def prime3 : UInt64 := 1609587929392839161
def prime4 : UInt64 := 9650029242287828579
def prime5 : UInt64 := 2870177450012600261

/-- A word with its bits moved up, the highest ones coming in below. -/
def rotate (w n : UInt64) : UInt64 := (w <<< n) ||| (w >>> (64 - n))

/-- The first bytes, at most `width`, as a word. -/
def wordOf (width : Nat) (bytes : List UInt8) : UInt64 :=
  UInt64.ofNat (ofLittleEndian (bytes.take width))

-- ================================================================ lanes

def mix (lane word : UInt64) : UInt64 :=
  rotate (lane + word * prime2) 31 * prime1

/-- The four lanes. -/
structure Lanes where
  a : UInt64 := prime1 + prime2
  b : UInt64 := prime2
  c : UInt64 := 0
  d : UInt64 := 0 - prime1

namespace Lanes

/-- Mixes whole rounds of four words in; the rest is left over. -/
def absorb (l : Lanes) (bytes : List UInt8) : Lanes × List UInt8 :=
  if bytes.length < 32 then (l, bytes)
  else
    absorb
      { a := mix l.a (wordOf 8 bytes)
        b := mix l.b (wordOf 8 (bytes.drop 8))
        c := mix l.c (wordOf 8 (bytes.drop 16))
        d := mix l.d (wordOf 8 (bytes.drop 24)) }
      (bytes.drop 32)
termination_by bytes.length

/-- Mixes a whole lane into a sum. -/
def merge (sum lane : UInt64) : UInt64 :=
  (sum ^^^ mix 0 lane) * prime1 + prime4

def join (l : Lanes) : UInt64 :=
  let sum :=
    rotate l.a 1 + rotate l.b 7 + rotate l.c 12 + rotate l.d 18
  merge (merge (merge (merge sum l.a) l.b) l.c) l.d

end Lanes

-- ============================================================= leftover

def mixBytes (sum : UInt64) (bytes : List UInt8) : UInt64 :=
  bytes.foldl
    (fun sum b => rotate (sum ^^^ (b.toUInt64 * prime5)) 11 * prime1) sum

/-- Mixes half a word in, if there is one, and then single bytes. -/
def mixHalf (sum : UInt64) (bytes : List UInt8) : UInt64 :=
  if bytes.length < 4 then mixBytes sum bytes
  else
    let sum := rotate (sum ^^^ (wordOf 4 bytes * prime1)) 23 * prime2 + prime3
    mixBytes sum (bytes.drop 4)

/-- Mixes words in, as long as there are any, and then the rest. -/
def mixWords (sum : UInt64) (bytes : List UInt8) : UInt64 :=
  if bytes.length < 8 then mixHalf sum bytes
  else
    let sum := rotate (sum ^^^ mix 0 (wordOf 8 bytes)) 27 * prime1 + prime4
    mixWords sum (bytes.drop 8)
termination_by bytes.length

/-- Spreads every bit over the whole word. -/
def spread (sum : UInt64) : UInt64 :=
  let sum := (sum ^^^ (sum >>> 33)) * prime2
  let sum := (sum ^^^ (sum >>> 29)) * prime3
  sum ^^^ (sum >>> 32)

def ofBytes (bytes : List UInt8) : UInt64 :=
  let size := UInt64.ofNat bytes.length
  if bytes.length < 32 then spread (mixWords (prime5 + size) bytes)
  else
    let (lanes, rest) := Lanes.absorb {} bytes
    spread (mixWords (lanes.join + size) rest)

end DiskAtlas.Packing.Checksum

/-
Packed streams. A stream is a row of frames. A frame has a header and
blocks: bytes as they are, runs of one byte, or packed bytes. There are
also frames that hold nothing to unpack. Every kind of frame and block is
read; what is written is a single frame in which long runs are runs and
everything else is kept as it is.
-/
import DiskAtlas.Packing.Block
import DiskAtlas.Packing.Checksum

namespace DiskAtlas.Packing

-- ============================================================== headers

/-- The number that frames begin with. -/
def frameMark : Nat := 0xFD2FB528

/-- Is this the first number of a frame with nothing to unpack? -/
def isPassedOver (mark : Nat) : Bool := mark / 16 = 0x184D2A5

def largestBlock : Nat := 131072

/-- The largest window that is allowed, in bytes. -/
def largestWindow : Nat := 134217729

/-- What a header says. -/
structure FrameHeader where
  /-- How many bytes must be kept at hand for unpacking. -/
  window : Nat
  /-- How many bytes the frame unpacks to, if that is known. -/
  size : Option Nat
  hasChecksum : Bool

/-- Reads the size of the window: an eighth more of a power of two for
each of the lowest bits. -/
def readWindow : Reader Nat := do
  let b := (← readByte).toNat
  let power := 1 <<< (b / 8 + 10)
  return power + power / 8 * (b % 8)

/-- Reads how many bytes a frame unpacks to. -/
def readSize (form : Nat) (single : Bool) : Reader (Option Nat) := do
  match form with
  | 0 => if single then return some (← readNumber 1) else return none
  | 1 => return some ((← readNumber 2) + 256)
  | 2 => return some (← readNumber 4)
  | _ => return some (← readNumber 8)

/-- Reads a header behind its mark. Frames that need bytes from elsewhere
or too large a window cannot be unpacked. -/
def readHeader : Reader FrameHeader := do
  let b := (← readByte).toNat
  let single := b / 32 % 2 = 1
  if b / 8 % 2 = 1 then failure
  let window ← if single then pure none else some <$> readWindow
  let dictionary ← readNumber (#[0, 1, 2, 4][b % 4]?.getD 0)
  if dictionary ≠ 0 then failure
  let size ← readSize (b / 64) single
  let window := window.getD (size.getD 0)
  if window > largestWindow then failure
  return { window, size, hasChecksum := b / 4 % 2 = 1 }

def FrameHeader.mostInBlock (h : FrameHeader) : Nat :=
  min h.window largestBlock

-- ============================================================== reading

/-- Reads the body of a block of some kind. -/
def Progress.readBlock (p : Progress) (most kind size : Nat) :
    Reader Progress := do
  if most < size then failure
  match kind with
  | 0 => return { p with bytes := p.bytes ++ (← readBytes size).toArray }
  | 1 =>
    let b ← readByte
    return { p with bytes := p.bytes ++ Array.replicate size b }
  | 2 =>
    let next ← p.unpack (← readBytes size)
    if next.bytes.size ≤ p.bytes.size + most then return next else failure
  | _ => failure

/-- Reads blocks up to the last one of a frame. -/
def Progress.readBlocks (most : Nat) : (fuel : Nat) → Progress →
    Reader Progress
  | 0, _ => failure
  | fuel + 1, p => do
    let n ← readNumber 3
    let p ← p.readBlock most (n / 2 % 4) (n / 8)
    if n % 2 = 1 then return p else readBlocks most fuel p

/-- Reads a frame that holds something. The fuel bounds its blocks. -/
def readContent (fuel : Nat) : Reader (List UInt8) := do
  let header ← readHeader
  let p ← Progress.readBlocks header.mostInBlock fuel {}
  let bytes := p.bytes.toList
  if header.size.any (· ≠ bytes.length) then failure
  if header.hasChecksum then
    let sum ← readNumber 4
    if (Checksum.ofBytes bytes).toUInt32.toNat ≠ sum then failure
  return bytes

def readFrame (fuel : Nat) : Reader (List UInt8) := do
  let mark ← readNumber 4
  if isPassedOver mark then
    let _ ← readBytes (← readNumber 4)
    return []
  if mark ≠ frameMark then failure
  readContent fuel

def readFrames : (fuel : Nat) → List UInt8 → Option (List UInt8)
  | 0, _ => none
  | fuel + 1, bytes => do
    let (first, rest) ← (readFrame bytes.length).run bytes
    if rest.isEmpty then some first
    else some (first ++ (← readFrames fuel rest))

/-- What a stream unpacks to; nothing unless it is a row of whole
frames. -/
def unpack (bytes : List UInt8) : Option (List UInt8) :=
  readFrames bytes.length bytes

-- ============================================================== writing

/-- The blocks that are written. -/
inductive Block where
  | plain (bytes : List UInt8)
  | run (byte : UInt8) (count : Nat)
  deriving Repr, DecidableEq

def runs : List UInt8 → List (UInt8 × Nat)
  | [] => []
  | b :: rest =>
    match runs rest with
    | (c, n) :: more =>
      if b = c then (c, n + 1) :: more else (b, 1) :: (c, n) :: more
    | [] => [(b, 1)]

/-- The shortest run that is written as one. -/
def shortestRun : Nat := 12

def prepend (bytes : List UInt8) : List Block → List Block
  | .plain more :: rest => .plain (bytes ++ more) :: rest
  | blocks => .plain bytes :: blocks

def blocksOf : List (UInt8 × Nat) → List Block
  | [] => []
  | (b, n) :: rest =>
    if shortestRun ≤ n then .run b n :: blocksOf rest
    else prepend (List.replicate n b) (blocksOf rest)

/-- Bytes in plain blocks that are not too large. -/
def plainBlocks (bytes : List UInt8) : List Block :=
  if bytes.length ≤ largestBlock then [.plain bytes]
  else
    .plain (bytes.take largestBlock) :: plainBlocks (bytes.drop largestBlock)
termination_by bytes.length
decreasing_by
  simp only [List.length_drop, largestBlock] at *
  omega

/-- A run in blocks that are not too large. -/
def runBlocks (b : UInt8) (n : Nat) : List Block :=
  if n ≤ largestBlock then [.run b n]
  else .run b largestBlock :: runBlocks b (n - largestBlock)
termination_by n
decreasing_by
  simp only [largestBlock] at *
  omega

/-- A block as blocks that are not too large. -/
def Block.cut : Block → List Block
  | plain bytes => plainBlocks bytes
  | run b n => runBlocks b n

/-- A block, with a bit that says whether it is the last one. -/
def Block.write (last : Bool) : Block → List UInt8
  | plain bytes =>
    littleEndian 3 (8 * bytes.length + last.toNat) ++ bytes
  | run b n => littleEndian 3 (8 * n + 2 + last.toNat) ++ [b]

/-- Blocks up to the last one; without any, an empty one. -/
def writeBlocks : List Block → List UInt8
  | [] => Block.write true (.plain [])
  | [b] => b.write true
  | b :: rest => b.write false ++ writeBlocks rest

/-- A frame without a size or a checksum, with a window of two
mebibytes. -/
def pack (bytes : List UInt8) : List UInt8 :=
  littleEndian 4 frameMark ++ [0, 0x58]
    ++ writeBlocks ((blocksOf (runs bytes)).flatMap Block.cut)

end DiskAtlas.Packing

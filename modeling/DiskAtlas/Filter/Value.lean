/-
The values of filter terms. A value is a comma list; each item is a single
value or a range `a..b`, and where a dash cannot be part of a number also
`a-b`. Either end may be left open. Offsets take a unit and must fit a
word: a whole number of units is refused if the product does not fit,
while fractions are cut off after the multiplication.
-/
import DiskAtlas.Filter.Basic
import DiskAtlas.Filter.Error
import DiskAtlas.Store.Summary
import DiskAtlas.Decimal.Reader
import DiskAtlas.Calendar

namespace DiskAtlas.FilterValue

open Text

-- ============================================================ splitting

/-- The pieces of a text between the characters that satisfy `p`. -/
def splitAt (p : Char → Bool) : List Char → List (List Char)
  | [] => [[]]
  | c :: cs =>
    if p c then [] :: splitAt p cs
    else
      match splitAt p cs with
      | [] => [[c]]
      | piece :: pieces => (c :: piece) :: pieces

/-- The pieces between separators, trimmed, without the empty ones. -/
def pieces (p : Char → Bool) (cs : List Char) : List (List Char) :=
  ((splitAt p cs).map trim).filter fun piece => !piece.isEmpty

def items (value : String) : List (List Char) :=
  pieces (· == ',') value.toList

/-- The texts before and after the first two points in a row. -/
def splitDots : List Char → Option (List Char × List Char)
  | '.' :: '.' :: rest => some ([], rest)
  | c :: rest => (splitDots rest).map fun (a, b) => (c :: a, b)
  | [] => none

/-- The texts before and after the first dash. -/
def splitDash : List Char → Option (List Char × List Char)
  | [] => none
  | c :: rest =>
    if c = '-' then some ([], rest)
    else (splitDash rest).map fun (a, b) => (c :: a, b)

/-- The ends of a range, trimmed, if the item is one. With `dash` a dash
also makes a range; at the very start it is a sign, and behind a first
character outside ASCII none is looked for. -/
def splitRange (dash : Bool) (raw : List Char) :
    Option (List Char × List Char) :=
  let ends :=
    match splitDots raw with
    | some ends => some ends
    | none =>
      match dash, raw with
      | true, c :: rest =>
        if c.toNat < 128 then
          (splitDash rest).map fun (a, b) => (c :: a, b)
        else none
      | _, _ => none
  ends.map fun (a, b) => (trim a, trim b)

-- =============================================================== ranges

/-- A range whose ends are in order. -/
def ordered {α : Type} [LT α] [DecidableLT α] (first last : α)
    (raw : List Char) : Except FilterError (Span α) :=
  if last < first then .error (.reversed (String.ofList raw))
  else .ok ⟨first, last⟩

/-- An end of a range, or `default` where it was left open. -/
def readEnd {α : Type} (read : List Char → Except FilterError α)
    (default : α) (text : List Char) : Except FilterError α :=
  if text.isEmpty then .ok default else read text

/-- An item that is a single value or a range of values; `first` and
`last` stand for open ends. -/
def readSpan {α : Type} [LT α] [DecidableLT α] (dash : Bool)
    (first last : α) (read : List Char → Except FilterError α)
    (raw : List Char) : Except FilterError (Span α) :=
  match splitRange dash raw with
  | some (a, b) => do
    let a ← readEnd read first a
    let b ← readEnd read last b
    ordered a b raw
  | none => (read raw).map Span.single

-- ============================================================== offsets

def sectorSize : UInt64 := 512

def unitSize (s : Summary) (unit : List Char) : Option UInt64 :=
  match unit with
  | [] => some 1
  | [c] =>
    match c.toLower with
    | 'b' => some (max s.blockSize 1)
    | 's' => some sectorSize
    | 'k' => some 0x400
    | 'm' => some 0x100000
    | 'g' => some 0x40000000
    | 't' => some 0x10000000000
    | _ => none
  | _ => none

/-- Is `c` part of the number of an offset? -/
def isNumberChar (c : Char) : Bool := c.isDigit || c == '.'

/-- A number with an optional unit, in bytes. A percentage is of the size
of the device. -/
def readOffset (s : Summary) (raw : List Char) :
    Except FilterError UInt64 := do
  let text := String.ofList raw
  let number := (trim raw).takeWhile isNumberChar
  let unit := (trim raw).dropWhile isNumberChar
  if number.isEmpty then throw (.noNumber text)
  let fraction : Except FilterError Float :=
    match Decimal.read number with
    | some x => .ok x
    | none => .error (.badNumber text)
  if unit == ['%'] then
    let percent ← fraction
    return (percent * s.totalBytes.toFloat / 100.0).toUInt64
  match unitSize s unit with
  | none => throw (.unknownUnit (String.ofList unit) text)
  | some size =>
    if number.contains '.' then
      let x ← fraction
      return (x * size.toFloat).toUInt64
    match readU64 number with
    | none => throw (.badNumber text)
    | some n =>
      match checkedMul n size with
      | none => throw (.tooLarge text)
      | some bytes => return bytes

/-- An item of a dimension of byte offsets. -/
def readOffsetSpan (s : Summary) : List Char →
    Except FilterError (Span UInt64) :=
  readSpan true 0 maxWord (readOffset s)

-- ============================================================== numbers

/-- A trimmed number, or the complaint that names its field. -/
def readField {α : Type} (field : String) (read : List Char → Option α)
    (raw : List Char) : Except FilterError α :=
  match read (trim raw) with
  | some value => .ok value
  | none => .error (.badField field (String.ofList raw))

/-- The least and the greatest signed word. -/
def minSigned : Int64 := Int64.minValue

def maxSigned : Int64 := Int64.maxValue

def readInodeSpan : List Char → Except FilterError (Span Int64) :=
  readSpan true minSigned maxSigned (readField "ino" readI64)

/-- An item of the dimension of extent counts. -/
def readCountSpan : List Char → Except FilterError (Span UInt64) :=
  readSpan true 0 maxWord (readField "extents" readU64)

def infinity : Float := Float.ofBits 0x7ff0000000000000

/-- An item of the dimension of travel scores. A dash belongs to an
exponent here. A score that is no number is not greater than another, so
it may be an end. -/
def readScoreSpan : List Char → Except FilterError (Span Float) :=
  readSpan false 0.0 infinity (readField "travel" Decimal.read)

-- ======================================================= kinds and flags

def readKinds (raw : List Char) : Except FilterError KindSet :=
  let text := String.ofList raw
  if asciiLower text == "all" then .ok .all
  else
    match ExtentKind.lookup text with
    | some kind => .ok (.single kind)
    | none => .error (.unknownKind text)

/-- Adds the flag that a name means. -/
def addFlag (mask : Flags) (name : List Char) : Except FilterError Flags :=
  match Flags.lookup (String.ofList name) with
  | some flag => .ok (mask.union flag)
  | none => .error (.unknownFlag (String.ofList name))

/-- The digits of a mask that is written in base sixteen. -/
def hexDigits : List Char → Option (List Char)
  | '0' :: 'x' :: digits => some digits
  | '0' :: 'X' :: digits => some digits
  | _ => none

/-- A mask: a number in base sixteen, of which the named bits count, or
names joined by plus or bar. -/
def readMask (raw : List Char) : Except FilterError Flags :=
  match hexDigits raw with
  | some digits =>
    match readHex32 digits with
    | some bits => .ok (.ofBitsNamed bits)
    | none => .error (.badMask (String.ofList raw))
  | none => (pieces (fun c => c == '+' || c == '|') raw).foldlM addFlag .empty

-- ================================================================ times

/-- The first and the last second that a text means: an instant in seconds,
or a day by the clocks of a time zone. -/
def readTime (zone : Calendar.Zone) (raw : List Char) :
    Except FilterError (Int64 × Int64) :=
  match readI64 (trim raw) with
  | some seconds => .ok (seconds, seconds)
  | none =>
    match Calendar.readDate (trim raw) with
    | none => .error (.badDate (String.ofList raw))
    | some date =>
      match zone.secondsOf? date with
      | none => .error (.missingDate (String.ofList raw))
      | some (first, last) => .ok (Int64.ofInt first, Int64.ofInt last)

/-- An item of a time dimension; a day as the end of a range counts
whole. -/
def readTimeSpan (zone : Calendar.Zone) (raw : List Char) :
    Except FilterError (Span Int64) :=
  match splitRange false raw with
  | some (a, b) => do
    let a ← readEnd (fun t => (readTime zone t).map (·.1)) minSigned a
    let b ← readEnd (fun t => (readTime zone t).map (·.2)) maxSigned b
    ordered a b raw
  | none => (readTime zone raw).map fun (a, b) => .ofBounds a b

end DiskAtlas.FilterValue

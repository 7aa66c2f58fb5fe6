/-
Reading bytes that should be text. Where they are not, each longest run of
bytes that could have begun a character, or a single byte that could not,
becomes one replacement character; everything else is read as it is.
-/

namespace DiskAtlas.Text

/-- The character that stands for bytes that are no text. -/
def replacement : Char := '\uFFFD'

/-- What the first byte of a character says about it. -/
structure Lead where
  /-- The bits that the first byte holds. -/
  bits : Nat
  /-- How many bytes follow. -/
  tails : Nat
  /-- The bounds of the second byte; later bytes are bounded only by being
  no first bytes. -/
  low : Nat := 0x80
  high : Nat := 0xBF

/-- The first byte of a character. The narrower bounds keep out characters
written longer than needed, surrogates and numbers past the last one. -/
def lead? (b : Nat) : Option Lead :=
  if b ≤ 0x7F then some ⟨b, 0, 0x80, 0xBF⟩
  else if 0xC2 ≤ b ∧ b ≤ 0xDF then some ⟨b - 0xC0, 1, 0x80, 0xBF⟩
  else if b = 0xE0 then some ⟨0, 2, 0xA0, 0xBF⟩
  else if b = 0xED then some ⟨0xD, 2, 0x80, 0x9F⟩
  else if 0xE1 ≤ b ∧ b ≤ 0xEF then some ⟨b - 0xE0, 2, 0x80, 0xBF⟩
  else if b = 0xF0 then some ⟨0, 3, 0x90, 0xBF⟩
  else if 0xF1 ≤ b ∧ b ≤ 0xF3 then some ⟨b - 0xF0, 3, 0x80, 0xBF⟩
  else if b = 0xF4 then some ⟨4, 3, 0x80, 0x8F⟩
  else none

/-- The bytes, at most `count`, that continue a character. -/
def takeTails : (count low high : Nat) → List UInt8 → List Nat
  | count + 1, low, high, b :: rest =>
    if low ≤ b.toNat ∧ b.toNat ≤ high then
      b.toNat :: takeTails count 0x80 0xBF rest
    else []
  | _, _, _, _ => []

/-- The character of a first byte and the bytes behind it. -/
def assemble (lead : Lead) (tails : List Nat) : Char :=
  Char.ofNat (tails.foldl (fun bits b => bits * 64 + (b - 0x80)) lead.bits)

def decodeLossy : List UInt8 → List Char
  | [] => []
  | b :: rest =>
    match lead? b.toNat with
    | none => replacement :: decodeLossy rest
    | some lead =>
      let tails := takeTails lead.tails lead.low lead.high rest
      let c :=
        if tails.length = lead.tails then assemble lead tails
        else replacement
      c :: decodeLossy (rest.drop tails.length)
termination_by bytes => bytes.length
decreasing_by
  · simp
  · simp only [List.length_cons, List.length_drop]
    omega

def lossyText (bytes : List UInt8) : String := .ofList (decodeLossy bytes)

def utf8Bytes (text : String) : List UInt8 := text.toUTF8.toList

end DiskAtlas.Text

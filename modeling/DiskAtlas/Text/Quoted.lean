/-
Text in quotation marks, as messages show it. A quoted text lies on one
line and shows every character unambiguously: the quotation mark, the
backslash, NUL, tab and the line ends have short escapes, and every other
character that would not be seen is written as its code point.
-/
import DiskAtlas.Text.Unshown

namespace DiskAtlas.Text

/-- The digits of a code point in base sixteen, without padding. -/
def hexText (n : Nat) : String := String.ofList (Nat.toDigits 16 n)

def escape (mark c : Char) : String :=
  if c = '\x00' then "\\0"
  else if c = '\t' then "\\t"
  else if c = '\n' then "\\n"
  else if c = '\x0d' then "\\r"
  else if c = '\\' then "\\\\"
  else if c = mark then "\\" ++ mark.toString
  else if isUnshown c then "\\u\x7b" ++ hexText c.toNat ++ "\x7d"
  else c.toString

def quoted (s : String) : String :=
  "\"" ++ String.join (s.toList.map (escape '"')) ++ "\""

/-- A single character between single quotation marks. -/
def quotedChar (c : Char) : String := "'" ++ escape '\'' c ++ "'"

end DiskAtlas.Text

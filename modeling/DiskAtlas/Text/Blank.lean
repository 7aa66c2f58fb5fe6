/-
Blank characters and trimming. "Blank" is the Unicode property
White_Space: it contains the no-break space and the ideographic space,
and it does not contain the zero-width space. Terms of the filter
language are separated by it and values are trimmed of it.
-/

namespace DiskAtlas.Text

/-- The code points of the property White_Space, as closed ranges. -/
def blankRanges : List (Nat × Nat) := [
  (0x09, 0x0d), (0x20, 0x20), (0x85, 0x85), (0xa0, 0xa0),
  (0x1680, 0x1680), (0x2000, 0x200a), (0x2028, 0x2029),
  (0x202f, 0x202f), (0x205f, 0x205f), (0x3000, 0x3000)]

def isBlank (c : Char) : Bool :=
  blankRanges.any fun r => r.1 ≤ c.toNat && c.toNat ≤ r.2

/-- Every character that the core library calls whitespace is blank. -/
theorem isBlank_of_isWhitespace {c : Char} (h : c.isWhitespace = true) :
    isBlank c = true := by
  simp only [Char.isWhitespace, Bool.or_eq_true, decide_eq_true_eq] at h
  rcases h with ((rfl | rfl) | rfl) | rfl <;> decide

-- ========================================================== trimming

/-- The text without the blanks at its start. -/
def trimStart (cs : List Char) : List Char := cs.dropWhile isBlank

/-- The text without the blanks at its end. -/
def trimEnd (cs : List Char) : List Char :=
  (cs.reverse.dropWhile isBlank).reverse

/-- The text without the blanks at both ends. -/
def trim (cs : List Char) : List Char := trimEnd (trimStart cs)

def trimString (s : String) : String := String.ofList (trim s.toList)

-- ====================================================== ASCII letters

/-- Small letters for capital ones; only the twenty-six letters of ASCII
have a case here. -/
def asciiLower (s : String) : String := s.map Char.toLower

/-- Capital letters for small ones, of ASCII alone. -/
def asciiUpper (s : String) : String := s.map Char.toUpper

end DiskAtlas.Text

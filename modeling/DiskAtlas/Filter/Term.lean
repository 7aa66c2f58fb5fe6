/-
The terms of a filter text. Terms stand between blanks; a term is a key, a
colon and a value. Double quotes keep blanks inside a term, and a
backslash takes the next character as it is; neither mark is part of the
term. Keys are read in any case, and both halves are trimmed.
-/
import DiskAtlas.Filter.Error
import DiskAtlas.Text.Blank

namespace DiskAtlas

open Text

/-- One term and the byte offset at which it starts. -/
structure FilterTerm where
  key : String
  value : String
  position : Nat
  deriving Repr, DecidableEq

namespace FilterTerm

/-- What was read of a text up to the end of a term. -/
structure Lexed where
  /-- The characters of the term, without quotes and escapes. -/
  text : List Char
  /-- Where a quote began that was not closed. -/
  openQuote : Option Nat
  /-- What is left, and the byte offset at which it begins. -/
  rest : List Char
  position : Nat
  deriving Repr, DecidableEq

/-- The same with one more character in front. -/
def Lexed.push (c : Char) (l : Lexed) : Lexed :=
  { l with text := c :: l.text }

/-- Reads to the end of a term. A backslash with nothing behind it stands
for nothing. -/
def lex (position : Nat) (openQuote : Option Nat) : List Char → Lexed
  | [] => ⟨[], openQuote, [], position⟩
  | ['\\'] => ⟨[], openQuote, [], position + 1⟩
  | '\\' :: c :: cs =>
    (lex (position + 1 + c.utf8Size) openQuote cs).push c
  | c :: cs =>
    if c = '"' then
      lex (position + 1)
        (if openQuote.isSome then none else some position) cs
    else if isBlank c && openQuote.isNone then
      ⟨[], none, c :: cs, position⟩
    else (lex (position + c.utf8Size) openQuote cs).push c

theorem length_rest_lex (position : Nat) (openQuote : Option Nat)
    (cs : List Char) : (lex position openQuote cs).rest.length ≤ cs.length := by
  fun_induction lex position openQuote cs with
  | case1 => simp
  | case2 => simp
  | case3 position q c cs ih =>
    simp only [Lexed.push, List.length_cons]
    omega
  | case4 position q cs _ _ ih =>
    simp only [List.length_cons]
    omega
  | case5 => simp
  | case6 position q c cs _ _ _ _ ih =>
    simp only [Lexed.push, List.length_cons]
    omega

/-- A term that does not begin with a blank has at least one character of
the text. -/
theorem length_rest_lex_lt (position : Nat) {c : Char} (cs : List Char)
    (hc : isBlank c = false) :
    (lex position none (c :: cs)).rest.length < (c :: cs).length := by
  have step := fun p q ds => length_rest_lex p q ds
  unfold lex
  split
  · exact absurd ‹_› (List.cons_ne_nil _ _)
  · simp_all
  · rename_i d ds h
    obtain ⟨rfl, rfl⟩ := List.cons.inj h
    have := step (position + 1 + d.utf8Size) none ds
    simp only [Lexed.push, List.length_cons]
    omega
  · rename_i d ds _ _ h
    obtain ⟨rfl, rfl⟩ := List.cons.inj h
    have h₁ := step (position + 1) (some position) cs
    have h₂ := step (position + c.utf8Size) none cs
    split
    · simp only [Option.isSome_none, Bool.false_eq_true, if_false,
        List.length_cons]
      omega
    · simp only [hc, Bool.false_and, Bool.false_eq_true, if_false,
        Lexed.push, List.length_cons]
      omega

/-- Splits a term at its first colon. -/
def ofText (position : Nat) (text : List Char) :
    Except FilterError FilterTerm :=
  match text.dropWhile (· != ':') with
  | [] => .error (.missingColon position)
  | _ :: value =>
    let key := String.ofList (trim (text.takeWhile (· != ':')))
    .ok ⟨asciiLower key, String.ofList (trim value), position⟩

/-- The terms of a text that begins at a byte offset. -/
def readFrom (position : Nat) (cs : List Char) :
    Except FilterError (List FilterTerm) :=
  match cs with
  | [] => .ok []
  | c :: rest =>
    if hc : isBlank c then readFrom (position + c.utf8Size) rest
    else
      have := length_rest_lex_lt position rest (by simpa using hc)
      let term := lex position none (c :: rest)
      match term.openQuote with
      | some start => .error (.openQuote start)
      | none => do
        let first ← ofText position term.text
        let others ← readFrom term.position term.rest
        return first :: others
termination_by cs.length
decreasing_by
  · exact Nat.lt_succ_self _
  · assumption

/-- The terms of a filter text, in order. -/
def read (text : String) : Except FilterError (List FilterTerm) :=
  readFrom 0 text.toList

end FilterTerm

end DiskAtlas

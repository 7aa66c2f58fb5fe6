/-
Wildcard patterns over paths. A question mark stands for one character, a
star for any run of characters, separators included, a class in brackets
for one of its characters, and two stars for a run of whole components.
A pattern is read into tokens once and then matched against many paths.

Matching tells three outcomes apart: a hit, a miss, and a miss because the
path ran out of characters. The last one ends the search for longer runs,
which could only leave fewer characters to the rest of the pattern.
-/

namespace DiskAtlas.Glob

/-- The character that separates the components of a path. -/
def separator : Char := '/'

-- ============================================================= tokens

/-- A member of a character class: the characters from `first` to
`last`. -/
structure CharSpan where
  first : Char
  last : Char
  deriving Repr, DecidableEq

/-- Is `c` in one of the spans? -/
def inClass (spans : List CharSpan) (c : Char) : Bool :=
  spans.any fun s => decide (s.first ≤ c) && decide (c ≤ s.last)

/-- One part of a pattern. -/
inductive Token where
  | char (c : Char)
  | anyChar
  | anyRun
  /-- Runs of whole components. -/
  | components
  | within (spans : List CharSpan)
  | except (spans : List CharSpan)
  deriving Repr, DecidableEq

/-- Does a token that stands for one character stand for `c`? -/
def Token.accepts (c : Char) : Token → Bool
  | .char d => c == d
  | .anyChar => true
  | .within spans => inClass spans c
  | .except spans => !inClass spans c
  | .anyRun | .components => false

-- ============================================================= errors

/-- Why a pattern cannot be read. -/
inductive Fault where
  /-- Three or more stars in a row. -/
  | tooManyStars
  /-- Two stars that are not a whole component. -/
  | partialComponent
  /-- A bracket without a class. -/
  | badClass
  deriving Repr, DecidableEq

/-- A fault and the character before which it was found. -/
structure PatternError where
  position : Nat
  fault : Fault
  deriving Repr, DecidableEq

def Fault.text : Fault → String
  | .tooManyStars =>
    "wildcards are either regular \x60*\x60 or recursive \x60**\x60"
  | .partialComponent => "recursive wildcards must form a single path component"
  | .badClass => "invalid range pattern"

def PatternError.message (e : PatternError) : String :=
  "Pattern syntax error near position " ++ toString e.position ++ ": "
    ++ e.fault.text

-- ============================================================ reading

/-- The members of a class. A hyphen between two characters makes a span;
anywhere else it is a character like any other. -/
def readClass : List Char → List CharSpan
  | a :: '-' :: b :: rest => ⟨a, b⟩ :: readClass rest
  | a :: rest => ⟨a, a⟩ :: readClass rest
  | [] => []

/-- Splits a text at the first closing bracket that is not its first
character. -/
def splitClass : List Char → Option (List Char × List Char)
  | [] => none
  | c :: rest =>
    let body := rest.takeWhile (· != ']')
    match rest.dropWhile (· != ']') with
    | [] => none
    | _ :: after => some (c :: body, after)

/-- The class after an opening bracket, and what follows it. -/
def readBracket : List Char → Option (Token × List Char)
  | '!' :: rest =>
    (splitClass rest).map fun (body, after) => (.except (readClass body), after)
  | rest =>
    (splitClass rest).map fun (body, after) => (.within (readClass body), after)

/-- The tokens so far with a components token after them. It says nothing
new directly after another one; only at the very start two are kept. -/
def pushComponents (done : List Token) : List Token :=
  match done with
  | .components :: _ :: _ => done
  | _ => .components :: done

/-- Two stars must begin a component (`before` is the character in front,
if any) and end one; a separator behind them belongs to them. -/
def afterTwoStars (position : Nat) (before : Option Char)
    (rest : List Char) : Except PatternError (List Char) :=
  if before.any (· != separator) then
    .error ⟨position - 1, .partialComponent⟩
  else
    match rest with
    | [] => .ok []
    | c :: after =>
      if c == separator then .ok after
      else .error ⟨position + 2, .partialComponent⟩

/-- Reads tokens from `rest`. `position` characters were read before it,
the last of them is `before`, and `done` are their tokens, last first.
Each step leaves fewer characters, so `fuel` need not exceed their
number. -/
def readTokens : (fuel : Nat) → (position : Nat) → (before : Option Char) →
    (done : List Token) → List Char → Except PatternError (List Token)
  | 0, _, _, done, _ => .ok done.reverse
  | _, _, _, done, [] => .ok done.reverse
  | fuel + 1, position, before, done, c :: rest =>
    let onward (token : List Token) (tail : List Char) :=
      let used := 1 + rest.length - tail.length
      readTokens fuel (position + used) ((c :: rest)[used - 1]?) token tail
    match c with
    | '?' => onward (.anyChar :: done) rest
    | '*' =>
      let after := rest.dropWhile (· == '*')
      match rest.length - after.length with
      | 0 => onward (.anyRun :: done) rest
      | 1 => do
        let tail ← afterTwoStars position before after
        onward (pushComponents done) tail
      | _ => .error ⟨position + 2, .tooManyStars⟩
    | '[' =>
      match readBracket rest with
      | some (token, tail) => onward (token :: done) tail
      | none => .error ⟨position, .badClass⟩
    | c => onward (.char c :: done) rest

def parse (text : List Char) : Except PatternError (List Token) :=
  readTokens text.length 0 none [] text

-- =========================================================== matching

/-- The outcome of matching tokens against a text. -/
inductive Outcome where
  | hit
  | miss
  /-- The text ended where a character was needed. -/
  | exhausted
  deriving Repr, DecidableEq

/-- Tries the rest of a pattern behind each longer run of the text. With
`wholeComponents` a run must end with a separator or with the text. -/
def tryRuns (wholeComponents : Bool) (rest : List Char → Outcome) :
    List Char → Outcome
  | [] => rest []
  | c :: cs =>
    if wholeComponents && c != separator then tryRuns wholeComponents rest cs
    else
      match rest cs with
      | .miss => tryRuns wholeComponents rest cs
      | outcome => outcome

/-- The empty run first, then the longer ones. -/
def tryEmpty (wholeComponents : Bool) (rest : List Char → Outcome)
    (text : List Char) : Outcome :=
  match rest text with
  | .miss => tryRuns wholeComponents rest text
  | outcome => outcome

/-- Matches all of a text against all of the tokens. -/
def matchTokens : List Token → List Char → Outcome
  | [], [] => .hit
  | [], _ :: _ => .miss
  | .anyRun :: ts, text => tryEmpty false (matchTokens ts) text
  | .components :: ts, text => tryEmpty true (matchTokens ts) text
  | .char _ :: _, [] => .exhausted
  | .anyChar :: _, [] => .exhausted
  | .within _ :: _, [] => .exhausted
  | .except _ :: _, [] => .exhausted
  | t :: ts, c :: text =>
    if t.accepts c then matchTokens ts text else .miss

def accepts (tokens : List Token) (text : List Char) : Bool :=
  matchTokens tokens text == .hit

end DiskAtlas.Glob

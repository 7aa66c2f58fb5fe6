/-
The path dimension of a filter: exact paths and globs. A value is a glob
as soon as it holds one of the three wildcard characters; the text before
the first of them is its stem, with which every matching path begins, so
that a sorted table need only be read where paths begin with it. Asking
for every path takes the restriction away for good, whatever else is or
will be asked for.
-/
import DiskAtlas.Path.Glob

namespace DiskAtlas

/-- One value of the path dimension. -/
inductive PathPattern where
  | exact (path : String)
  | glob (text : String) (tokens : List Glob.Token) (stem : String)
  deriving Repr, DecidableEq

namespace PathPattern

/-- Does a character make a value a glob? -/
def isWildcard (c : Char) : Bool := c == '*' || c == '?' || c == '['

/-- The text before the first wildcard. -/
def stemOf (text : List Char) : List Char :=
  text.takeWhile fun c => !isWildcard c

def parse (text : String) : Except Glob.PatternError PathPattern :=
  if text.toList.any isWildcard then do
    let tokens ← Glob.parse text.toList
    return .glob text tokens (String.ofList (stemOf text.toList))
  else .ok (.exact text)

/-- The text that every matching path begins with. -/
def stem : PathPattern → String
  | .exact path => path
  | .glob _ _ stem => stem

/-- Does the pattern name a single path? -/
def isExact : PathPattern → Bool
  | .exact _ => true
  | .glob .. => false

def accepts (path : String) : PathPattern → Bool
  | .exact wanted => wanted == path
  | .glob _ tokens stem =>
    stem.toList.isPrefixOf path.toList && Glob.accepts tokens path.toList

end PathPattern

-- ====================================================== the dimension

/-- What is asked of paths: any of some patterns, or nothing at all after
every path was asked for. -/
inductive PathFilter where
  | patterns (values : List PathPattern)
  | everything
  deriving Repr, DecidableEq

namespace PathFilter

def none : PathFilter := .patterns []

/-- Does a value ask for every path, written with or without the
separator that all paths begin with? -/
def asksForAll (value : String) (separator : Char) : Bool :=
  value.toList == ['*'] || value.toList == [separator, '*']

/-- Asks for one more value. Once every path was asked for, values are
not even read. -/
def add (value : String) (separator : Char) :
    PathFilter → Except Glob.PatternError PathFilter
  | .everything => .ok .everything
  | .patterns values =>
    if asksForAll value separator then .ok .everything
    else (PathPattern.parse value).map fun p => .patterns (values ++ [p])

/-- The patterns asked for; there are none once all paths were. -/
def values : PathFilter → List PathPattern
  | .everything => []
  | .patterns values => values

def isActive (f : PathFilter) : Bool := !f.values.isEmpty

def accepts (f : PathFilter) (path : String) : Bool :=
  !f.isActive || f.values.any (·.accepts path)

end PathFilter

end DiskAtlas
